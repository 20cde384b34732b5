import TemplateCensus.Proofs.Dump.Accesses

/-! Which specialization a printed type is taken for. Among the candidates one that records as many
arguments as are printed comes before all that record more, wherever they stand in the list, and
between equals the first one decides. -/

namespace TemplateCensus.Dump

/-! ## The choice -/

/-- The recorded arguments match the printed ones in the places of these; an unknown one, which is
empty, matches any. -/
def Matches (args recorded : List String) : Prop :=
  ∀ (i : Nat) (a : String), args[i]? = some a → ∃ r, recorded[i]? = some r ∧ (r ≠ "" → r = a)

def MatchesInFull (args : List String) (s : Specialization) : Prop :=
  s.args.length = args.length ∧ Matches args s.args

def MatchesInPart (args : List String) (s : Specialization) : Prop :=
  args.length < s.args.length ∧ Matches args s.args

def IsFirst {α : Type} (p : α → Prop) (xs : List α) (x : α) : Prop :=
  ∃ before after, xs = before ++ x :: after ∧ p x ∧ ∀ y ∈ before, ¬p y

inductive Chosen (args : List String) (cands : List Specialization) :
    Option Specialization → Prop
  | inFull {s : Specialization} (h : IsFirst (MatchesInFull args) cands s) :
      Chosen args cands (some s)
  | inPart {s : Specialization} (hfull : ∀ c ∈ cands, ¬MatchesInFull args c)
      (h : IsFirst (MatchesInPart args) cands s) : Chosen args cands (some s)
  | nothing (hfull : ∀ c ∈ cands, ¬MatchesInFull args c)
      (hpart : ∀ c ∈ cands, ¬MatchesInPart args c) : Chosen args cands none

theorem matches_cons {a r : String} {args recorded : List String} :
    Matches (a :: args) (r :: recorded) ↔ (r ≠ "" → r = a) ∧ Matches args recorded := by
  constructor
  · intro h
    refine ⟨?_, fun i => h (i + 1)⟩
    obtain ⟨_, hr, hra⟩ := h 0 a rfl
    exact Option.some.inj hr ▸ hra
  · rintro ⟨hfirst, hrest⟩ i b hb
    cases i with
    | zero =>
      obtain rfl := Option.some.inj hb
      exact ⟨r, rfl, hfirst⟩
    | succ i => exact hrest i b hb

theorem matchArguments_iff {args recorded : List String} :
    matchArguments recorded args ↔ Matches args recorded := by
  fun_induction matchArguments recorded args with
  | case1 recorded => simp [Matches]
  | case2 a args =>
    refine iff_of_false Bool.false_ne_true fun h => ?_
    obtain ⟨r, hr, -⟩ := h 0 a rfl
    cases hr
  | case3 r recorded a args ih =>
    rw [matches_cons, ← ih, Bool.and_eq_true, Bool.or_eq_true, decide_eq_true_iff,
      decide_eq_true_iff, or_iff_not_imp_left]

theorem matchesInFull_iff {args : List String} {s : Specialization} :
    (matchArguments s.args args && s.args.length = args.length) = true ↔ MatchesInFull args s := by
  rw [Bool.and_eq_true, decide_eq_true_iff, matchArguments_iff, and_comm, MatchesInFull]

theorem matchesInPart_iff {args : List String} {s : Specialization}
    (hfull : ¬MatchesInFull args s) : matchArguments s.args args ↔ MatchesInPart args s := by
  rw [MatchesInPart, ← matchArguments_iff]
  refine ⟨fun h => ⟨?_, h⟩, And.right⟩
  have hlength : s.args.length ≠ args.length := fun hlength =>
    hfull ⟨hlength, matchArguments_iff.mp h⟩
  exact Nat.lt_of_le_of_ne (length_le_of_matchArguments h) hlength.symm

theorem find?_eq_some_iff_isFirst {α : Type} {b : α → Bool} {p : α → Prop} {xs : List α} {x : α}
    (h : ∀ y ∈ xs, b y ↔ p y) : xs.find? b = some x ↔ IsFirst p xs x := by
  rw [List.find?_eq_some_iff_append]
  constructor
  · rintro ⟨hx, before, after, rfl, hbefore⟩
    refine ⟨before, after, rfl, (h x (by simp)).mp hx, fun y hy hpy => ?_⟩
    have hby := (h y (List.mem_append_left _ hy)).mpr hpy
    simpa [hby] using hbefore y hy
  · rintro ⟨before, after, rfl, hx, hbefore⟩
    refine ⟨(h x (by simp)).mpr hx, before, after, rfl, fun y hy => ?_⟩
    rw [Bool.not_eq_true', Bool.eq_false_iff]
    exact fun hby => hbefore y hy ((h y (List.mem_append_left _ hy)).mp hby)

theorem select?_eq_iff_chosen {args : List String} {cands : List Specialization}
    {r : Option Specialization} : select? cands args = r ↔ Chosen args cands r := by
  have hfirst : ∀ s, (cands.find? fun s => matchArguments s.args args &&
      s.args.length = args.length) = some s ↔ IsFirst (MatchesInFull args) cands s :=
    fun s => find?_eq_some_iff_isFirst fun _ _ => matchesInFull_iff
  have hnone : (cands.find? fun s => matchArguments s.args args &&
      s.args.length = args.length) = none ↔ ∀ c ∈ cands, ¬MatchesInFull args c := by
    simp only [List.find?_eq_none, matchesInFull_iff]
  have hpart : (∀ c ∈ cands, ¬MatchesInFull args c) → ∀ s,
      (cands.find? fun s => matchArguments s.args args) = some s ↔
        IsFirst (MatchesInPart args) cands s :=
    fun h s => find?_eq_some_iff_isFirst fun c hc => matchesInPart_iff (h c hc)
  rw [select?_eq]
  constructor
  · rintro rfl
    cases hfull : cands.find? _ with
    | some s => exact .inFull ((hfirst s).mp hfull)
    | none =>
      rw [hnone] at hfull
      rw [Option.none_or]
      cases hrest : cands.find? _ with
      | some s => exact .inPart hfull ((hpart hfull s).mp hrest)
      | none =>
        exact .nothing hfull fun c hc hmatch =>
          List.find?_eq_none.mp hrest c hc ((matchesInPart_iff (hfull c hc)).mpr hmatch)
  · intro h
    cases h with
    | inFull h => rw [(hfirst _).mpr h, Option.some_or]
    | inPart hfull h => rw [hnone.mpr hfull, Option.none_or, (hpart hfull _).mpr h]
    | nothing hfull hrest =>
      rw [hnone.mpr hfull, Option.none_or, List.find?_eq_none]
      exact fun c hc hmatch => hrest c hc ((matchesInPart_iff (hfull c hc)).mp hmatch)

theorem args_of_select? {args : List String} {cands : List Specialization}
    (hknown : ∀ c ∈ cands, "" ∉ c.args) (hexact : ∃ c ∈ cands, c.args = args) :
    ∃ s, select? cands args = some s ∧ s.args = args := by
  obtain ⟨c, hc, rfl⟩ := hexact
  obtain ⟨s, hs, hmatch, hlength⟩ := exists_select?_of_full hc (matchArguments_self c.args) rfl
  exact ⟨s, hs, eq_of_matchArguments hmatch hlength (hknown s (of_select? hs).1)⟩

/-! ## The candidates -/

/-- The entries by qualified name that a finding makes: one under its full name, and one under the
visible name if that is another one. -/
def Named.entries {α : Type} (n : Named α) : List (String × α) :=
  if n.visible = n.full then [(n.full, n.item)] else [(n.full, n.item), (n.visible, n.item)]

def listedUnder {α : Type} (q : String) (ns : List (Named α)) : List α :=
  ((ns.flatMap Named.entries).filter (·.1 = q)).map (·.2)

theorem listedUnder_eq {α : Type} (q : String) (ns : List (Named α)) :
    listedUnder q ns = (ns.filter (·.answersTo q)).map (·.item) := by
  have hone : ∀ n : Named α, (n.entries.filter (·.1 = q)).map (·.2) =
      if n.answersTo q then [n.item] else [] := by
    intro n
    unfold Named.entries Named.answersTo
    by_cases hfull : n.full = q
    · by_cases hvisible : n.visible = q <;> simp [hfull, hvisible]
    · by_cases hvisible : n.visible = q
      · have hdiffer : q ≠ n.full := Ne.symm hfull
        simp [hfull, hvisible, hdiffer]
      · split <;> simp [hfull, hvisible]
  rw [listedUnder, List.filter_flatMap, List.map_flatMap, ← flatMap_ite]
  simp only [hone]

theorem Tables.candidates_eq_listedUnder (t : Tables) (q name : String) :
    t.candidates q name =
      if listedUnder q t.specializations = [] ∧ listedUnder q t.templates = [] then
        (t.specializations.filter (·.name = name)).map (·.item)
      else listedUnder q t.specializations := by
  rw [candidates, templatesNamed, ← listedUnder_eq, ← listedUnder_eq]
  simp only [Bool.and_eq_true, List.isEmpty_iff]

/-- The choice is the first candidate that matches in full, and the first one that matches in part
only if none does; one pass over the candidates makes it. Where all arguments are known and some
candidate has the printed ones, the chosen one has them. Candidates are listed under the qualified
name, or else under the bare name when neither a specialization nor a class template is listed under
the qualified one. -/
theorem specialization_preference :
    (∀ (cands : List Specialization) (args : List String),
      (∀ r, select? cands args = r ↔ Chosen args cands r) ∧
      selectAt? args none cands = some (select? cands args) ∧
      ((∀ c ∈ cands, "" ∉ c.args) → (∃ c ∈ cands, c.args = args) →
        ∃ s, select? cands args = some s ∧ s.args = args)) ∧
    ∀ (t : Tables) (q name : String),
      (∀ args, t.specialization? q name args = select? (t.candidates q name) args) ∧
      t.candidates q name =
        if listedUnder q t.specializations = [] ∧ listedUnder q t.templates = [] then
          (t.specializations.filter (·.name = name)).map (·.item)
        else listedUnder q t.specializations := by
  refine ⟨fun cands args => ⟨fun r => select?_eq_iff_chosen, ?_, args_of_select?⟩,
    fun t q name => ⟨fun args => rfl, t.candidates_eq_listedUnder q name⟩⟩
  exact selectAt?_eq_select? args cands

def vectors : List Specialization :=
  [⟨["int", "std::allocator<int>"], none, none, true⟩, ⟨["int"], none, none, false⟩]

theorem specialization_preference_vectors :
    (∀ c ∈ vectors, "" ∉ c.args) ∧ (∃ c ∈ vectors, c.args = ["int"]) ∧
      select? vectors ["int"] = vectors[1]? ∧
      ∃ s, select? vectors ["int"] = some s ∧ s.args = ["int"] := by
  have hknown : ∀ c ∈ vectors, "" ∉ c.args := by decide
  have hexact : ∃ c ∈ vectors, c.args = ["int"] := by decide
  obtain ⟨hchosen, -, hargs⟩ := specialization_preference.1 vectors ["int"]
  have hfirst : IsFirst (MatchesInFull ["int"]) vectors ⟨["int"], none, none, false⟩ := by
    refine ⟨[_], [], rfl, ⟨rfl, matchArguments_iff.mp rfl⟩, fun c hc hfull => ?_⟩
    rw [List.mem_singleton.mp hc] at hfull
    exact absurd hfull.1 (by decide)
  exact ⟨hknown, hexact, (hchosen _).mpr (.inFull hfirst), hargs hknown hexact⟩

end TemplateCensus.Dump
