import TemplateCensus.Proofs.Dump.Addresses
import TemplateCensus.Proofs.Dump.Pattern

/-! The memo cannot be seen in the records: each of them is the one that its spelling resolves to
with an empty memo, whatever was resolved before. What there is to note about a spelling is noted
when it comes for the first time, so it is noted once. -/

namespace TemplateCensus.Dump

def Remark.spelling : Remark → String
  | noTemplate k => k
  | isSpecialization k _ => k

def Tables.recallAll (t : Tables) (memo : Memo) :
    List String → List (Option RecordDecl) × List Remark
  | [] => ([], [])
  | k :: ks =>
    let (r, memo, noted) := t.recall memo k
    let (rs, more) := t.recallAll memo ks
    (r :: rs, noted ++ more)

namespace Tables
variable {t : Tables} {memo : Memo} {k : String}

/-! ## One spelling -/

theorem spelling_of_resolve {r : Remark} (h : (t.resolve k).2 = some r) : r.spelling = k := by
  unfold resolve at h
  dsimp only at h
  split at h
  · cases h
  · split at h
    · cases h
      rfl
    · split at h
      · cases h
        rfl
      · split at h
        · cases h
        · cases h
          rfl

theorem remarks_recall (t : Tables) (memo : Memo) (k : String) : (t.recall memo k).2.2 =
    if memo.find? k = none then (t.recall .empty k).2.2 else [] := by
  unfold Tables.recall
  split_ifs with hk hnone hnone
  · simp [hnone]
  · obtain ⟨r, hr⟩ := Option.ne_none_iff_exists'.mp hnone
    rw [hr]
  · rfl
  · rfl

theorem remarks_recall_empty (t : Tables) (k : String) : (t.recall .empty k).2.2 =
    if namesRecord k then (t.resolve k).2.toList else [] := by
  unfold Tables.recall
  rw [Keyed.find?_empty]
  split_ifs <;> rfl

theorem find?_recall (t : Tables) (memo : Memo) (k l : String) : (t.recall memo k).2.1.find? l =
    if l = k then (memo.find? k).or (t.recordOf k) else memo.find? l := by
  unfold Tables.recall recordOf
  split_ifs with hk hl hl
  · cases hr : memo.find? k with
    | none => simp [hl]
    | some r => simp [hl, hr]
  · cases hr : memo.find? k with
    | none => simp [hl]
    | some r => rfl
  · rw [hl, Option.or_none]
  · rfl

theorem length_remarks_recall_empty (t : Tables) (k : String) :
    (t.recall .empty k).2.2.length ≤ 1 := by
  rw [remarks_recall_empty]
  split_ifs
  · cases (t.resolve k).2 <;> simp
  · exact Nat.zero_le 1

theorem remarks_of_recordOf_eq_none (h : t.recordOf k = none) : (t.recall .empty k).2.2 = [] := by
  rw [remarks_recall_empty]
  unfold recordOf at h
  split_ifs at h with hk
  rw [if_neg hk]

theorem filter_remarks_recall (t : Tables) (memo : Memo) (k l : String) :
    (t.recall memo l).2.2.filter (·.spelling = k) =
      if k = l ∧ memo.find? k = none then (t.recall .empty k).2.2 else [] := by
  have hspelling : ∀ r ∈ (t.recall .empty l).2.2, r.spelling = l := by
    intro r hr
    rw [remarks_recall_empty] at hr
    split_ifs at hr
    · exact spelling_of_resolve (Option.mem_toList.mp hr)
    · cases hr
  rw [remarks_recall]
  by_cases hkl : k = l
  · subst hkl
    simp only [true_and]
    split_ifs
    · exact List.filter_eq_self.mpr fun r hr => decide_eq_true (hspelling r hr)
    · rfl
  · simp only [hkl, false_and, if_false, List.filter_eq_nil_iff]
    intro r hr heq
    split_ifs at hr
    · exact hkl ((of_decide_eq_true heq).symm.trans (hspelling r hr))
    · cases hr

/-! ## Many spellings -/

theorem recallAll_cons (t : Tables) (memo : Memo) (k : String) (ks : List String) :
    t.recallAll memo (k :: ks) =
      ((t.recall memo k).1 :: (t.recallAll (t.recall memo k).2.1 ks).1,
        (t.recall memo k).2.2 ++ (t.recallAll (t.recall memo k).2.1 ks).2) := rfl

theorem records_recallAll (h : memo.Sound t) (ks : List String) :
    (t.recallAll memo ks).1 = ks.map t.recordOf := by
  induction ks generalizing memo with
  | nil => rfl
  | cons k ks ih =>
    obtain ⟨hrecord, hmemo⟩ := t.recall_of_sound h k
    rw [recallAll_cons, List.map_cons, ← hrecord, ← ih hmemo]

/-- What is noted about a spelling is what there is to note about it, unless it never comes or is in
the memo from the start. -/
theorem filter_remarks_recallAll (t : Tables) (memo : Memo) (ks : List String) (k : String) :
    (t.recallAll memo ks).2.filter (·.spelling = k) =
      if k ∈ ks ∧ memo.find? k = none then (t.recall .empty k).2.2 else [] := by
  induction ks generalizing memo with
  | nil => rfl
  | cons l ks ih =>
    rw [recallAll_cons, List.filter_append, filter_remarks_recall, ih, find?_recall]
    by_cases hkl : k = l
    · subst hkl
      by_cases hmemo : memo.find? k = none
      · -- from here on the memo has the record, if there is one
        have hrest :
            (if k ∈ ks ∧ t.recordOf k = none then (t.recall .empty k).2.2 else []) = [] := by
          split_ifs with h
          · exact remarks_of_recordOf_eq_none h.2
          · rfl
        simp [hmemo, hrest]
      · simp [hmemo]
    · simp [hkl]

theorem nodup_spellings_recallAll (t : Tables) (memo : Memo) (ks : List String) :
    ((t.recallAll memo ks).2.map Remark.spelling).Nodup := by
  refine List.nodup_iff_count_le_one.mpr fun k => ?_
  have hcount : ((t.recallAll memo ks).2.map Remark.spelling).count k =
      ((t.recallAll memo ks).2.filter (·.spelling = k)).length := by
    rw [List.count_eq_countP, List.countP_map, List.countP_eq_length_filter]
    rfl
  rw [hcount, filter_remarks_recallAll]
  split_ifs
  · exact t.length_remarks_recall_empty k
  · exact Nat.zero_le 1

theorem remarks_attach (t : Tables) (memo : Memo) (cs : List Construction) :
    (t.attach memo cs).2 = (t.recallAll memo (cs.map (·.canonical))).2 := by
  induction cs generalizing memo with
  | nil => rfl
  | cons c cs ih =>
    rw [List.map_cons, recallAll_cons, ← ih, attach]
    cases htype : c.type with
    | none =>
      -- a missing type has the empty spelling, which leaves no trace
      have hc : c.canonical = "" := by
        rw [Construction.canonical, htype]
        rfl
      rw [hc]
      rfl
    | some ty => rfl

end Tables

theorem remarks_of_ofNode {main : String} {root : Node} {s : Surveyed}
    (h : ofNode main root = .ok s) :
    s.remarks = (s.tables.recallAll .empty (s.constructions.map (·.canonical))).2 := by
  obtain ⟨-, -, htables, hcalls⟩ := ofNode_eq_ok h
  have hattach : s.remarks = (root.found.tables.attach .empty root.found.constructions).2 := by
    cases root with
    | null => cases h
    | mk a children =>
      simp only [ofNode] at h
      split_ifs at h
      cases h
      rfl
  rw [hattach, Tables.remarks_attach, hcalls, List.map_map, htables]
  rfl

/-- Spellings resolved one after the other in a dump, in any order and however often, have the
records that they resolve to with an empty memo; each is noted at most once, and with what there is
to note about it. The calls of the dump are resolved so, and those of one type have one record. -/
theorem memo_transparent {main : String} {root : Node} {s : Surveyed}
    (h : ofNode main root = .ok s) :
    (∀ ks : List String,
      (s.tables.recallAll .empty ks).1 = ks.map (fun k => (s.tables.recall .empty k).1) ∧
      ((s.tables.recallAll .empty ks).2.map Remark.spelling).Nodup ∧
      ∀ k, (s.tables.recallAll .empty ks).2.filter (·.spelling = k) =
        if k ∈ ks then (s.tables.recall .empty k).2.2 else []) ∧
    s.constructions.map (·.record) =
      (s.tables.recallAll .empty (s.constructions.map (·.canonical))).1 ∧
    s.remarks = (s.tables.recallAll .empty (s.constructions.map (·.canonical))).2 ∧
    ∀ c ∈ s.constructions, ∀ d ∈ s.constructions, c.canonical = d.canonical →
      c.record = d.record := by
  have hfresh : ∀ k, (s.tables.recall .empty k).1 = s.tables.recordOf k := fun k =>
    (Tables.recall_of_sound (Memo.sound_empty s.tables) k).1
  have hrecord : ∀ c ∈ s.constructions, c.record = s.tables.recordOf c.canonical := by
    intro c hc
    rw [(ofNode_eq_ok h).2.2.2] at hc
    obtain ⟨b, -, rfl⟩ := List.mem_map.mp hc
    rfl
  refine ⟨fun ks => ⟨?_, s.tables.nodup_spellings_recallAll .empty ks, fun k => ?_⟩, ?_,
    remarks_of_ofNode h, fun c hc d hd hcd => ?_⟩
  · simp only [Tables.records_recallAll (Memo.sound_empty s.tables), hfresh]
  · simp [Tables.filter_remarks_recallAll]
  · rw [Tables.records_recallAll (Memo.sound_empty s.tables), List.map_map]
    exact List.map_congr_left hrecord
  · rw [hrecord c hc, hrecord d hd, hcd]

def boxCalls : Node :=
  .mk { kind := rootKind } (boxDump.children ++
    ["Gap<int>", "Box<int *>", "Gap<int>", "int[4]", "Box<int>"].map fun type =>
      .mk { kind := "CXXConstructExpr", type := some ⟨type, ""⟩ } [])

theorem memo_transparent_box :
    ∃ s, ofNode "main.cc" boxCalls = .ok s ∧
      s.remarks = [.isSpecialization "Box<int *>" "Box", .noTemplate "Gap<int>"] ∧
      (s.tables.recallAll .empty ["Gap<int>", "Box<int>", "Gap<int>", "Box<int *>"]).1 =
        ["Gap<int>", "Box<int>", "Gap<int>", "Box<int *>"].map
          (fun k => (s.tables.recall .empty k).1) ∧
      ∀ c ∈ s.constructions, ∀ d ∈ s.constructions, c.canonical = d.canonical →
        c.record = d.record := by
  have hs : ∃ s, ofNode "main.cc" boxCalls = .ok s := ⟨_, rfl⟩
  obtain ⟨s, hs⟩ := hs
  obtain ⟨hsequence, -, -, hsame⟩ := memo_transparent hs
  have hnoted : (ofNode "main.cc" boxCalls).toOption.map (·.remarks) =
      some [.isSpecialization "Box<int *>" "Box", .noTemplate "Gap<int>"] := by decide +kernel
  rw [hs] at hnoted
  exact ⟨s, hs, Option.some.inj hnoted, (hsequence _).1, hsame⟩

end TemplateCensus.Dump
