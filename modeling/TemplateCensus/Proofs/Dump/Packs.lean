import TemplateCensus.Proofs.Dump.Arguments

/-! Packs among the arguments of a specialization. Expansion puts the elements of a pack in its
place, at any depth, and what is recorded are the texts of the arguments after it. An empty pack
should leave no trace, but its node looks like that of an argument without a text: it is recorded as
an unknown argument, which matches anything. -/

namespace TemplateCensus.Dump

open Spelling

def Node.isArgument (n : Node) : Bool := n.attrs?.any (·.kind = argumentKind)

/-- An argument that is no pack, with the nodes below it. If it has neither a type nor a value,
these are nodes of another kind, such as an expression. -/
structure Single where
  attrs : Attributes
  below : List Node
  plain : attrs.type.isSome ∨ attrs.value ≠ "" ∨ ∀ n ∈ below, n.attrs?.isSome ∧ ¬n.isArgument

def Single.text? (x : Single) : Option String :=
  match x.attrs.type with
  | some t => some (normal (writtenType t))
  | none =>
    if x.attrs.value ≠ "" then some x.attrs.value
    else if x.below.isEmpty then some "" else none

inductive Argument where
  | single (x : Single)
  | pack (attrs : Attributes) (elements : List Argument)

namespace Argument

mutual

/-- An argument as a dump shows it: a pack has neither a type nor a value, and its elements are the
nodes below it. -/
def node : Argument → Node
  | single x => .mk { x.attrs with kind := argumentKind } x.below
  | pack a elements =>
    .mk { a with kind := argumentKind, type := none, value := "" } (nodes elements)

def nodes : List Argument → List Node
  | [] => []
  | x :: xs => node x :: nodes xs

end

mutual

def expand : Argument → List Single
  | single x => [x]
  | pack _ elements => expandAll elements

def expandAll : List Argument → List Single
  | [] => []
  | x :: xs => expand x ++ expandAll xs

end

mutual

/-- The number of packs without elements, at any depth. -/
def emptyPacks : Argument → Nat
  | single _ => 0
  | pack _ elements => if elements.isEmpty then 1 else emptyPacksAll elements

def emptyPacksAll : List Argument → Nat
  | [] => 0
  | x :: xs => emptyPacks x + emptyPacksAll xs

end

end Argument

/-! ## What is recorded -/

structure Records (texts : List String) (xs : List Single) (more : Nat) : Prop where
  sublist : (xs.filterMap Single.text?).Sublist texts
  length_eq : texts.length = (xs.filterMap Single.text?).length + more
  count_eq : texts.count "" = (xs.filterMap Single.text?).count "" + more

theorem Records.append {texts texts' : List String} {xs xs' : List Single} {more more' : Nat}
    (h : Records texts xs more) (h' : Records texts' xs' more') :
    Records (texts ++ texts') (xs ++ xs') (more + more') where
  sublist := by
    rw [List.filterMap_append]
    exact h.sublist.append h'.sublist
  length_eq := by
    have hlen := h.length_eq
    have hlen' := h'.length_eq
    rw [List.filterMap_append, List.length_append, List.length_append]
    omega
  count_eq := by
    have hcount := h.count_eq
    have hcount' := h'.count_eq
    rw [List.filterMap_append, List.count_append, List.count_append]
    omega

theorem argumentsOf?_filter {children : List Node} (h : ∀ n ∈ children, n.attrs?.isSome) :
    argumentsOf? children = argumentsOf? (children.filter Node.isArgument) := by
  induction children with
  | nil => rfl
  | cons n ns ih =>
    have hrest := ih fun m hm => h m (List.mem_cons_of_mem n hm)
    by_cases harg : n.isArgument
    · rw [List.filter_cons_of_pos harg, argumentsOf?, argumentsOf?, hrest]
    · cases n with
      | null => exact absurd (h .null List.mem_cons_self) (by decide)
      | mk a below =>
        have hkind : a.kind ≠ argumentKind := by simpa [Node.isArgument, Node.attrs?] using harg
        have hnone : argumentTexts? (.mk a below) = some [] := by rw [argumentTexts?, if_neg hkind]
        rw [List.filter_cons_of_neg harg, argumentsOf?, hnone, hrest]
        cases argumentsOf? (ns.filter Node.isArgument) <;> rfl

theorem Single.argumentTexts?_eq (x : Single) :
    argumentTexts? (.mk { x.attrs with kind := argumentKind } x.below) = some x.text?.toList := by
  have hplain := x.plain
  unfold argumentTexts? Single.text?
  cases htype : x.attrs.type with
  | some t => rfl
  | none =>
    by_cases hvalue : x.attrs.value = ""
    · by_cases hbelow : x.below.isEmpty
      · simp [hvalue, hbelow]
      · have hother : ∀ n ∈ x.below, n.attrs?.isSome ∧ ¬n.isArgument := by
          simpa [htype, hvalue] using hplain
        have hnone : x.below.filter Node.isArgument = [] :=
          List.filter_eq_nil_iff.mpr fun n hn => (hother n hn).2
        have hskip : argumentsOf? x.below = some [] := by
          rw [argumentsOf?_filter fun n hn => (hother n hn).1, hnone, argumentsOf?]
        simp [hvalue, hbelow, hskip]
    · simp [hvalue]

theorem Single.records (x : Single) : Records x.text?.toList [x] 0 := by
  have hone : [x].filterMap Single.text? = x.text?.toList := by
    cases h : x.text? <;> simp [h]
  exact ⟨by rw [hone], by rw [hone, Nat.add_zero], by rw [hone, Nat.add_zero]⟩

mutual

theorem Argument.exists_texts : (x : Argument) →
    ∃ texts, argumentTexts? x.node = some texts ∧ Records texts x.expand x.emptyPacks
  | .single x => by
    rw [node, expand, emptyPacks]
    exact ⟨_, x.argumentTexts?_eq, x.records⟩
  | .pack a elements => by
    obtain ⟨texts, htexts, hrecords⟩ := Argument.exists_texts_all elements
    rw [node, expand, emptyPacks]
    cases elements with
    -- without elements there is nothing to tell the pack from an unknown argument
    | nil =>
      refine ⟨[""], by simp [argumentTexts?, nodes], ?_⟩
      exact ⟨by simp [expandAll], by simp [expandAll], by simp [expandAll]⟩
    | cons x xs =>
      refine ⟨texts, ?_, hrecords⟩
      rw [← htexts]
      simp [argumentTexts?, nodes]

theorem Argument.exists_texts_all : (xs : List Argument) →
    ∃ texts, argumentsOf? (nodes xs) = some texts ∧ Records texts (expandAll xs) (emptyPacksAll xs)
  | [] => ⟨[], rfl, .slnil, rfl, rfl⟩
  | x :: xs => by
    obtain ⟨texts, htexts, hrecords⟩ := Argument.exists_texts x
    obtain ⟨texts', htexts', hrecords'⟩ := Argument.exists_texts_all xs
    refine ⟨texts ++ texts', ?_, hrecords.append hrecords'⟩
    rw [nodes, argumentsOf?, htexts, htexts']

end

/-! ## What a record matches -/

open Argument

structure HasArguments (children : List Node) (args : List Argument) : Prop where
  no_gap : ∀ n ∈ children, n.attrs?.isSome
  arguments : children.filter Node.isArgument = nodes args

/-- The record of a specialization has the texts of its arguments after expansion, and one unknown
argument for each empty pack. So it matches no more arguments than there are after expansion unless
it has more empty packs than arguments without a text. -/
theorem packs_expanded {children : List Node} {args : List Argument}
    (h : HasArguments children args) :
    ∃ texts, argumentsOf? children = some texts ∧
      ((expandAll args).filterMap Single.text?).Sublist texts ∧
      texts.length = ((expandAll args).filterMap Single.text?).length + emptyPacksAll args ∧
      texts.count "" = ((expandAll args).filterMap Single.text?).count "" + emptyPacksAll args ∧
      ((∀ printed, matchArguments texts printed → printed.length ≤ (expandAll args).length) ↔
        emptyPacksAll args ≤ ((expandAll args).filter (·.text?.isNone)).length) ∧
      ∀ v : Visit, v.children = children → ∃ x, v.specialization? = some x ∧ x.args = texts ∧
        ∀ (t : Tables) (q name : String) (printed : List String),
          t.specialization? q name printed = some x →
            printed.length ≤
              ((expandAll args).filterMap Single.text?).length + emptyPacksAll args := by
  obtain ⟨texts, htexts, hrecords⟩ := exists_texts_all args
  rw [← h.arguments, ← argumentsOf?_filter h.no_gap] at htexts
  have hlen := hrecords.length_eq
  have hsplit : (expandAll args).length = ((expandAll args).filterMap Single.text?).length +
      ((expandAll args).filter (·.text?.isNone)).length := by
    rw [List.length_filterMap_eq_countP, ← List.countP_eq_length_filter,
      List.length_eq_countP_add_countP fun x : Single => x.text?.isSome]
    congr 2
    funext x
    cases x.text? <;> rfl
  refine ⟨texts, htexts, hrecords.sublist, hlen, hrecords.count_eq, ⟨?_, ?_⟩, ?_⟩
  · intro hall
    have hself := hall texts (matchArguments_self texts)
    omega
  · intro hle printed hmatch
    have hshort := length_le_of_matchArguments hmatch
    omega
  · intro v hv
    refine ⟨_, by rw [Visit.specialization?, hv, htexts]; rfl, rfl, ?_⟩
    intro t q name printed hfound
    have hshort := length_le_of_matchArguments (of_select? hfound).2
    rwa [hlen] at hshort

def Argument.ofType (type : String) : Argument :=
  .single ⟨{ type := some ⟨type, ""⟩ }, [], .inl rfl⟩

def Argument.ofExpression (kind : String) (h : kind ≠ argumentKind) : Argument :=
  .single ⟨{}, [.mk { kind := kind } []],
    .inr (.inr (by simpa [Node.isArgument, Node.attrs?] using h))⟩

theorem packs_expanded_nested :
    let args : List Argument := [
      .ofType "int", .pack {} [.ofType "char", .pack {} [.ofType "bool"]],
      .ofExpression "DeclRefExpr" (by decide), .pack {} []]
    let children := .mk { kind := "CXXRecordDecl" } [] :: nodes args
    HasArguments children args ∧ (expandAll args).length = 4 ∧
      argumentsOf? children = some ["int", "char", "bool", ""] ∧
      ∀ printed, matchArguments ["int", "char", "bool", ""] printed → printed.length ≤ 4 := by
  intro args children
  have h : HasArguments children args := ⟨by decide, rfl⟩
  have htexts : argumentsOf? children = some ["int", "char", "bool", ""] := by decide +kernel
  obtain ⟨texts, hread, -, -, -, hbound, -⟩ := packs_expanded h
  obtain rfl : ["int", "char", "bool", ""] = texts := Option.some.inj (htexts.symm.trans hread)
  exact ⟨h, rfl, htexts, hbound.mpr (by decide +kernel)⟩

def tuples (first second : Node) : Node :=
  let header (line column : Int) : Option Spot :=
    some (.mk ⟨some 0, "tuple.h", line, column, "main.cc"⟩ none none)
  .mk { kind := rootKind } [
    .mk { kind := "ClassTemplateDecl", name := "Tuple", location := header 1 30 } [
      .mk { kind := "TemplateTypeParmDecl", name := "Ts" } [],
      .mk { kind := "CXXRecordDecl", name := "Tuple", location := header 1 30,
            isComplete := true } [],
      first,
      second],
    .mk { kind := "ClassTemplatePartialSpecializationDecl", name := "Tuple",
          location := header 2 39 } [],
    .mk { kind := "CXXRecordDecl", name := "Unit", location := header 3 7, isComplete := true } [],
    .mk { kind := "CXXConstructExpr", type := some ⟨"Tuple<int>", ""⟩,
          start := some (.mk ⟨some 0, "main.cc", 2, 23, ""⟩ none none) } []]

def tuple (elements : List Argument) (line column : Int) : Node :=
  let header : Option Spot := some (.mk ⟨some 0, "tuple.h", line, column, "main.cc"⟩ none none)
  .mk { kind := "ClassTemplateSpecializationDecl", name := "Tuple", location := header }
    (nodes [.pack {} elements] ++
      [.mk { kind := "CXXRecordDecl", name := "Tuple", location := header, isImplicit := true } []])

/-- The specialization without arguments is recorded with an unknown one, so the type with one
argument takes it for its own and becomes an instantiation of the primary template. It comes from
the partial specialization, as it does if its own specialization is listed first. -/
theorem empty_pack_matches :
    ∃ s s', ofNode "main.cc" (tuples (tuple [] 1 30) (tuple [.ofType "int"] 2 39)) = .ok s ∧
      ofNode "main.cc" (tuples (tuple [.ofType "int"] 2 39) (tuple [] 1 30)) = .ok s' ∧
      expandAll [.pack {} []] = [] ∧
      argumentsOf? (nodes [.pack {} []]) = some [""] ∧ matchArguments [""] ["int"] ∧
      s.constructions.map (fun c => (c.canonical, c.record.map RecordDecl.kind)) =
        [("Tuple<int>", some .instantiation)] ∧
      s'.constructions.map (fun c => (c.canonical, c.record.map RecordDecl.kind)) =
        [("Tuple<int>", some .ordinary)] ∧
      (s.unit.census {}).registry.keys = ["Tuple<int>"] ∧
      (s'.unit.census {}).registry.keys = [] := by
  have hs : ∃ s, ofNode "main.cc" (tuples (tuple [] 1 30) (tuple [.ofType "int"] 2 39)) =
      .ok s := ⟨_, rfl⟩
  have hs' : ∃ s, ofNode "main.cc" (tuples (tuple [.ofType "int"] 2 39) (tuple [] 1 30)) =
      .ok s := ⟨_, rfl⟩
  obtain ⟨s, hs⟩ := hs
  obtain ⟨s', hs'⟩ := hs'
  let seen (s : Surveyed) : List (String × Option RecordKind) × List String :=
    (s.constructions.map fun c => (c.canonical, c.record.map RecordDecl.kind),
      (s.unit.census {}).registry.keys)
  have hseen : (ofNode "main.cc" (tuples (tuple [] 1 30)
      (tuple [.ofType "int"] 2 39))).toOption.map seen =
        some ([("Tuple<int>", some .instantiation)], ["Tuple<int>"]) := by decide +kernel
  have hseen' : (ofNode "main.cc" (tuples (tuple [.ofType "int"] 2 39)
      (tuple [] 1 30))).toOption.map seen = some ([("Tuple<int>", some .ordinary)], []) := by
    decide +kernel
  rw [hs] at hseen
  rw [hs'] at hseen'
  obtain ⟨hkinds, hkeys⟩ := Prod.mk.inj (Option.some.inj hseen)
  obtain ⟨hkinds', hkeys'⟩ := Prod.mk.inj (Option.some.inj hseen')
  exact ⟨s, s', hs, hs', rfl, by decide +kernel, by decide, hkinds, hkinds', hkeys, hkeys'⟩

end TemplateCensus.Dump
