import Mathlib.Data.List.Basic
import TemplateCensus.Census.Report
import TemplateCensus.Proofs.Census.Acceptance
import TemplateCensus.Proofs.Census.Memory

/-! The texts of a registry read back. Each of the three texts is one group of framed lines, a blank
line, and a second group. A framed line is never blank, so the first blank line is the one between
the groups, whatever the types and headers look like, as long as no line break is among their
characters. -/

namespace TemplateCensus

/-! ## Lines -/

namespace Text

def OneLine (s : String) : Prop := '\n' ∉ s.toList

instance (s : String) : Decidable (OneLine s) := inferInstanceAs (Decidable ('\n' ∉ s.toList))

def lineText (ls : List (List Char)) : List Char := ls.flatMap (· ++ ['\n'])

def lines? : List Char → Option (List (List Char))
  | [] => some []
  | c :: cs =>
    if c = '\n' then (lines? cs).map ([] :: ·)
    else
      match lines? cs with
      | some (l :: ls) => some ((c :: l) :: ls)
      | _ => none

theorem lineText_cons (l : List Char) (ls : List (List Char)) :
    lineText (l :: ls) = l ++ '\n' :: lineText ls := by
  rw [lineText, List.flatMap_cons, List.append_assoc]
  rfl

theorem lines?_append {l : List Char} (h : '\n' ∉ l) (s : List Char) :
    lines? (l ++ '\n' :: s) = (lines? s).map (l :: ·) := by
  induction l with
  | nil => simp [lines?]
  | cons c l ih =>
    have hc : c ≠ '\n' := (List.ne_of_not_mem_cons h).symm
    have hl : '\n' ∉ l := List.not_mem_of_not_mem_cons h
    rw [List.cons_append, lines?, if_neg hc, ih hl]
    cases lines? s <;> rfl

theorem lines?_eq_some_iff {s : List Char} {ls : List (List Char)} :
    lines? s = some ls ↔ s = lineText ls ∧ ∀ l ∈ ls, '\n' ∉ l := by
  constructor
  · intro h
    induction s generalizing ls with
    | nil =>
      obtain rfl := Option.some.inj h
      exact ⟨rfl, nofun⟩
    | cons c cs ih =>
      rw [lines?] at h
      split at h
      · next hc =>
        obtain ⟨ms, hms, rfl⟩ := Option.map_eq_some_iff.mp h
        obtain ⟨rfl, hall⟩ := ih hms
        refine ⟨by rw [lineText_cons, hc]; rfl, ?_⟩
        rintro l (_ | ⟨_, hl⟩)
        · exact List.not_mem_nil
        · exact hall l hl
      · next hc =>
        split at h
        · next l ms hms =>
          obtain rfl := Option.some.inj h
          obtain ⟨rfl, hall⟩ := ih hms
          refine ⟨by rw [lineText_cons, lineText_cons]; rfl, ?_⟩
          rintro m (_ | ⟨_, hm⟩)
          · exact List.not_mem_cons_of_ne_of_not_mem (Ne.symm hc) (hall l List.mem_cons_self)
          · exact hall m (List.mem_cons_of_mem l hm)
        · exact nomatch h
  · rintro ⟨rfl, hall⟩
    induction ls with
    | nil => rfl
    | cons l ls ih =>
      rw [lineText_cons, lines?_append (hall l List.mem_cons_self),
        ih fun m hm => hall m (List.mem_cons_of_mem l hm)]
      rfl

end Text

open Text

/-! ## Framed lines -/

/-- What stands around a text on its line. There is something in front of it, so that the line is
not blank. -/
structure Frame where
  before : String
  after : String
  marked : before ≠ ""
  oneLine : OneLine before ∧ OneLine after

namespace Frame

def line (f : Frame) (x : String) : List Char := f.before.toList ++ x.toList ++ f.after.toList

def text? (f : Frame) (l : List Char) : Option String :=
  ((l.dropPrefix? f.before.toList).bind (·.dropSuffix? f.after.toList)).map String.ofList

def texts? (f : Frame) : List (List Char) → Option (List String)
  | [] => some []
  | l :: ls =>
    match f.text? l, f.texts? ls with
    | some x, some xs => some (x :: xs)
    | _, _ => none

theorem line_ne_nil (f : Frame) (x : String) : f.line x ≠ [] := by
  have hbefore : f.before.toList ≠ [] := fun h => f.marked (String.toList_eq_nil_iff.mp h)
  rw [line, List.append_assoc]
  exact List.append_ne_nil_of_left_ne_nil hbefore _

theorem newline_mem_line (f : Frame) {x : String} : '\n' ∉ f.line x ↔ OneLine x := by
  have hbefore := f.oneLine.1
  have hafter := f.oneLine.2
  unfold OneLine at *
  simp [line, hbefore, hafter]

theorem text?_eq_some_iff (f : Frame) {l : List Char} {x : String} :
    f.text? l = some x ↔ l = f.line x := by
  unfold text? line
  simp only [Option.map_eq_some_iff, Option.bind_eq_some_iff, List.dropPrefix?_eq_some_iff,
    List.dropSuffix?_eq_some_iff, beq_iff_eq]
  constructor
  · rintro ⟨y, ⟨z, ⟨_, rfl, rfl⟩, _, rfl, rfl⟩, rfl⟩
    rw [String.toList_ofList, List.append_assoc]
  · rintro rfl
    exact ⟨x.toList, ⟨x.toList ++ f.after.toList, ⟨_, List.append_assoc .., rfl⟩, _, rfl, rfl⟩,
      String.ofList_toList⟩

theorem texts?_eq_some_iff (f : Frame) {ls : List (List Char)} {xs : List String} :
    f.texts? ls = some xs ↔ ls = xs.map f.line := by
  induction ls generalizing xs with
  | nil => cases xs <;> simp [texts?]
  | cons l ls ih =>
    rw [texts?]
    split
    · next x ys hx hys =>
      have hl := f.text?_eq_some_iff.mp hx
      have hls := ih.mp hys
      subst hl hls
      cases xs with
      | nil => simp
      | cons y xs =>
        have hfirst : f.line x = f.line y ↔ x = y := by
          rw [← f.text?_eq_some_iff, hx, Option.some_inj]
        have hothers : ys.map f.line = xs.map f.line ↔ ys = xs := by
          rw [← ih, hys, Option.some_inj]
        simp [hfirst, hothers]
    · next hnone =>
      refine ⟨nofun, fun h => ?_⟩
      cases xs with
      | nil => exact nomatch h
      | cons x xs =>
        obtain ⟨hl, hls⟩ := List.cons_eq_cons.mp h
        exact absurd (ih.mpr hls) (hnone x xs (f.text?_eq_some_iff.mpr hl))

end Frame

/-! ## Two groups of lines -/

structure Layout where
  first : Frame
  second : Frame

namespace Layout

def write (f : Layout) (xs ys : List String) : String :=
  String.ofList (lineText (xs.map f.first.line ++ [] :: ys.map f.second.line))

def groups? (f : Layout) : List (List Char) → Option (List String × List String)
  | [] => none
  | l :: ls =>
    if l = [] then (f.second.texts? ls).map ([], ·)
    else
      match f.first.text? l, f.groups? ls with
      | some x, some (xs, ys) => some (x :: xs, ys)
      | _, _ => none

def read? (f : Layout) (s : String) : Option (List String × List String) :=
  (lines? s.toList).bind f.groups?

theorem groups?_eq_some_iff (f : Layout) {ls : List (List Char)} {xs ys : List String} :
    f.groups? ls = some (xs, ys) ↔ ls = xs.map f.first.line ++ [] :: ys.map f.second.line := by
  induction ls generalizing xs with
  | nil => simp [groups?]
  | cons l ls ih =>
    rw [groups?]
    cases xs with
    | nil =>
      split_ifs with hl
      · subst hl
        simp [← f.second.texts?_eq_some_iff]
      · split <;> simp [hl]
    | cons x xs =>
      split_ifs with hl
      · have hne := f.first.line_ne_nil x
        subst hl
        simp [hne.symm]
      · rw [List.map_cons, List.cons_append, List.cons_eq_cons, ← ih,
          ← f.first.text?_eq_some_iff]
        split
        · next y zs ws hy hzs => simp [hy, hzs, and_assoc]
        · next hnone =>
          refine ⟨nofun, fun ⟨hx, hxs⟩ => ?_⟩
          exact absurd hxs (hnone x xs ys hx)

/-- Reading accepts just what writing produces from texts of one line, so that a text has at most
one reading. -/
theorem read?_eq_some_iff (f : Layout) {s : String} {xs ys : List String} :
    f.read? s = some (xs, ys) ↔
      s = f.write xs ys ∧ (∀ x ∈ xs, OneLine x) ∧ ∀ y ∈ ys, OneLine y := by
  have hlines : (∀ l ∈ xs.map f.first.line ++ [] :: ys.map f.second.line, '\n' ∉ l) ↔
      (∀ x ∈ xs, OneLine x) ∧ ∀ y ∈ ys, OneLine y := by
    simp only [List.forall_mem_append, List.forall_mem_cons, List.forall_mem_map,
      Frame.newline_mem_line, List.not_mem_nil, not_false_eq_true, true_and]
  rw [read?, Option.bind_eq_some_iff, ← hlines, write]
  constructor
  · rintro ⟨ls, hls, hgroups⟩
    obtain rfl := f.groups?_eq_some_iff.mp hgroups
    obtain ⟨hs, hall⟩ := lines?_eq_some_iff.mp hls
    exact ⟨by rw [← hs, String.ofList_toList], hall⟩
  · rintro ⟨rfl, hall⟩
    refine ⟨_, lines?_eq_some_iff.mpr ⟨?_, hall⟩, f.groups?_eq_some_iff.mpr rfl⟩
    rw [String.toList_ofList]

theorem toList_write (f : Layout) (xs ys : List String) :
    (f.write xs ys).toList = lineText (xs.map f.first.line) ++ '\n' ::
      lineText (ys.map f.second.line) := by
  rw [write, String.toList_ofList, lineText, List.flatMap_append, List.flatMap_cons]
  rfl

end Layout

/-! ## The texts of a registry -/

namespace Registry

def typeFrame : Frame := ⟨"template ", "", by decide, by decide⟩
def includeFrame : Frame := ⟨"#include \"", "\"", by decide, by decide⟩
def definitionFrame : Frame := ⟨"template class ", ";", by decide, by decide⟩
def pragmaFrame : Frame := ⟨"#pragma once", "", by decide, by decide⟩
def declarationFrame : Frame := ⟨"extern template class ", ";", by decide, by decide⟩

def reportLayout : Layout := ⟨typeFrame, includeFrame⟩
def definitionsLayout : Layout := ⟨includeFrame, definitionFrame⟩
def declarationsLayout : Layout := ⟨pragmaFrame, declarationFrame⟩

def types (r : Registry) : List String := r.sorted.map (·.type)

def sources (r : Registry) : List String := r.sorted.map (·.source)

theorem toList_join_map {α : Type} (f : Frame) (g : α → String) (render : α → String)
    (h : ∀ a, (render a).toList = f.line (g a) ++ ['\n']) (as : List α) :
    (String.join (as.map render)).toList = lineText ((as.map g).map f.line) := by
  rw [String.toList_join, lineText, List.flatMap_map, List.map_map, List.flatMap_map]
  exact List.flatMap_congr fun a _ => h a

theorem report_eq_write (r : Registry) : r.report = reportLayout.write r.types r.headers := by
  apply String.toList_injective
  have htypes := toList_join_map typeFrame (·.type)
    (fun i : Instantiation => "template " ++ i.type ++ "\n")
    (fun i => by simp [Frame.line, typeFrame]) r.sorted
  have hheaders := toList_join_map includeFrame id includeLine
    (fun h => by simp [Frame.line, includeFrame, includeLine]) r.headers
  rw [report, String.toList_append, String.toList_append, htypes, hheaders, List.map_id,
    Layout.toList_write, List.append_assoc]
  rfl

theorem definitions_eq_write (r : Registry) :
    r.definitions = definitionsLayout.write (r.headers.filter (· ≠ "")) r.types := by
  apply String.toList_injective
  have hheaders := toList_join_map includeFrame id includeLine
    (fun h => by simp [Frame.line, includeFrame, includeLine]) (r.headers.filter (· ≠ ""))
  have htypes := toList_join_map definitionFrame (·.type)
    (fun i : Instantiation => "template class " ++ i.type ++ ";\n")
    (fun i => by simp [Frame.line, definitionFrame]) r.sorted
  rw [definitions, String.toList_append, String.toList_append, htypes, hheaders, List.map_id,
    Layout.toList_write, List.append_assoc]
  rfl

theorem declarations_eq_write (r : Registry) :
    r.declarations = declarationsLayout.write [""] r.types := by
  apply String.toList_injective
  have htypes := toList_join_map declarationFrame (·.type)
    (fun i : Instantiation => "extern template class " ++ i.type ++ ";\n")
    (fun i => by simp [Frame.line, declarationFrame]) r.sorted
  rw [declarations, String.toList_append, htypes, Layout.toList_write]
  rfl

def IsOneLine (r : Registry) : Prop := ∀ i ∈ r.sorted, OneLine i.type ∧ OneLine i.source

theorem IsOneLine.types {r : Registry} (h : r.IsOneLine) : ∀ t ∈ r.types, OneLine t := by
  intro t ht
  obtain ⟨i, hi, rfl⟩ := List.mem_map.mp ht
  exact (h i hi).1

theorem mem_headers_iff_mem_sources {r : Registry} {h : String} :
    h ∈ r.headers ↔ h ∈ r.sources := by
  rw [Registry.headers, mem_ascending, sources, List.mem_map, List.mem_map]
  simp only [mem_sorted]

theorem IsOneLine.headers {r : Registry} (h : r.IsOneLine) : ∀ g ∈ r.headers, OneLine g := by
  intro g hg
  obtain ⟨i, hi, rfl⟩ := List.mem_map.mp (mem_headers_iff_mem_sources.mp hg)
  exact (h i hi).2

theorem eq_of_pairwise_lt {xs ys : List String} (hx : xs.Pairwise (· < ·))
    (hy : ys.Pairwise (· < ·)) (h : ∀ x, x ∈ xs ↔ x ∈ ys) : xs = ys := by
  have hperm := (List.perm_ext_iff_of_nodup (hx.imp fun h => h.ne) (hy.imp fun h => h.ne)).mpr h
  exact hperm.eq_of_pairwise (fun _ _ _ _ hab hba => absurd hba hab.asymm) hx hy

theorem headers_eq_iff {r s : Registry} :
    r.headers = s.headers ↔ ∀ g, g ∈ r.sources ↔ g ∈ s.sources := by
  simp only [← mem_headers_iff_mem_sources]
  exact ⟨fun h g => by rw [h],
    eq_of_pairwise_lt (pairwise_ascending _) (pairwise_ascending _)⟩

theorem types_eq_iff {r s : Registry} (hr : r.IsKeyed) (hs : s.IsKeyed) :
    r.types = s.types ↔ ∀ t, t ∈ r.types ↔ t ∈ s.types := by
  have hordered : ∀ q : Registry, q.IsKeyed → q.types.Pairwise (· < ·) := by
    intro q hq
    rw [types, hq.sorted_eq_values]
    exact List.pairwise_map.mpr hq.pairwise_values
  exact ⟨fun h t => by rw [h], eq_of_pairwise_lt (hordered r hr) (hordered s hs)⟩

theorem report_eq_report_iff {r s : Registry} (hr : r.IsOneLine) (hs : s.IsOneLine) :
    r.report = s.report ↔ r.types = s.types ∧ ∀ g, g ∈ r.sources ↔ g ∈ s.sources := by
  have hread : ∀ q : Registry, q.IsOneLine →
      reportLayout.read? q.report = some (q.types, q.headers) := fun q hq =>
    reportLayout.read?_eq_some_iff.mpr ⟨q.report_eq_write, hq.types, hq.headers⟩
  rw [← headers_eq_iff]
  constructor
  · intro h
    have heq := (hread r hr).symm.trans (h ▸ hread s hs)
    exact Prod.mk.inj (Option.some.inj heq)
  · rintro ⟨htypes, hheaders⟩
    rw [report_eq_write, report_eq_write, htypes, hheaders]

theorem types_eq_mergeSort (r : Registry) : r.types = (r.values.map (·.type)).mergeSort :=
  List.map_mergeSort fun _ _ _ _ => rfl

theorem types_canonicalize (r : Registry) (t : HeaderTable) :
    (r.canonicalize t).types = r.types := by
  rw [types_eq_mergeSort, types_eq_mergeSort]
  simp only [Keyed.values, canonicalize, Keyed.map, List.map_map]
  rfl

theorem oneLine_bare (s : String) : OneLine (Spelling.bare s) := by
  have hblank := (Spelling.isNormal_bareChars s.toList).spaced.blank
  rw [OneLine, Spelling.bare, String.toList_ofList]
  intro h
  exact absurd (hblank '\n' h (by decide)) (by decide)

theorem oneLine_of_mem_types_census {u : SourceUnit} {t : Trace} {k : String}
    (h : k ∈ (u.census t).registry.types) : OneLine k := by
  obtain ⟨i, hi, rfl⟩ := List.mem_map.mp h
  obtain ⟨k, hk⟩ := Keyed.mem_values.mp (mem_sorted.mp hi)
  rw [u.find?_census, Option.bind_eq_some_iff] at hk
  obtain ⟨c, -, hc⟩ := hk
  rw [Construction.type_of_instantiation? hc, ← c.bare_canonical]
  exact oneLine_bare _

/-- The three texts of a registry whose types and sources have no line breaks give back, each in its
layout, the types in order and the headers: all headers in the report, those with a name in the
definitions. So reports are equal just if the types and the sources are the same, and a text has at
most one reading. The types that a census finds never have line breaks. -/
theorem texts_read_back {r : Registry} (h : r.IsOneLine) :
    reportLayout.read? r.report = some (r.types, r.headers) ∧
    definitionsLayout.read? r.definitions = some (r.headers.filter (· ≠ ""), r.types) ∧
    declarationsLayout.read? r.declarations = some ([""], r.types) ∧
    (∀ s : Registry, s.IsOneLine →
      (r.report = s.report ↔ r.types = s.types ∧ ∀ g, g ∈ r.sources ↔ g ∈ s.sources) ∧
      (r.IsKeyed → s.IsKeyed → (r.report = s.report ↔
        (∀ t, t ∈ r.types ↔ t ∈ s.types) ∧ ∀ g, g ∈ r.sources ↔ g ∈ s.sources))) ∧
    (∀ (f : Layout) (text : String) (xs ys : List String), f.read? text = some (xs, ys) ↔
      text = f.write xs ys ∧ (∀ x ∈ xs, OneLine x) ∧ ∀ y ∈ ys, OneLine y) ∧
    ∀ (u : SourceUnit) (tr : Trace) (t : HeaderTable),
      ((u.census tr).registry.canonicalize t).types = (u.census tr).registry.types ∧
        ∀ k ∈ (u.census tr).registry.types, OneLine k := by
  have hnamed : ∀ g ∈ r.headers.filter (· ≠ ""), OneLine g := fun g hg =>
    h.headers g (List.mem_of_mem_filter hg)
  have hpragma : ∀ x ∈ [""], OneLine x := by decide
  refine ⟨?_, ?_, ?_, ?_, ?_, ?_⟩
  · exact reportLayout.read?_eq_some_iff.mpr ⟨r.report_eq_write, h.types, h.headers⟩
  · exact definitionsLayout.read?_eq_some_iff.mpr ⟨r.definitions_eq_write, hnamed, h.types⟩
  · exact declarationsLayout.read?_eq_some_iff.mpr ⟨r.declarations_eq_write, hpragma, h.types⟩
  · intro s hs
    refine ⟨report_eq_report_iff h hs, fun hr hs' => ?_⟩
    rw [← types_eq_iff hr hs']
    exact report_eq_report_iff h hs
  · exact fun f text xs ys => f.read?_eq_some_iff
  · exact fun u tr t => ⟨types_canonicalize _ t, fun k hk => oneLine_of_mem_types_census hk⟩

def awkwardRegistry : Registry :=
  [⟨"#include \"x.h\"", "", "", [], none⟩, ⟨"", "a\"b.h", "", [], none⟩,
    ⟨"template class T;", "lib/x y.h", "", [], none⟩].foldl add .empty

theorem texts_read_back_awkward :
    awkwardRegistry.IsOneLine ∧
    reportLayout.read? awkwardRegistry.report =
      some (["", "#include \"x.h\"", "template class T;"], ["", "a\"b.h", "lib/x y.h"]) ∧
    definitionsLayout.read? awkwardRegistry.definitions =
      some (["a\"b.h", "lib/x y.h"], ["", "#include \"x.h\"", "template class T;"]) := by
  have hsorted : awkwardRegistry.sorted = awkwardRegistry.values :=
    IsKeyed.sorted_eq_values (((isKeyed_empty.add _).add _).add _)
  have h : awkwardRegistry.IsOneLine := by
    rw [IsOneLine, hsorted]
    decide +kernel
  have htypes : awkwardRegistry.types = ["", "#include \"x.h\"", "template class T;"] := by
    rw [types, hsorted]
    decide +kernel
  have hheaders : awkwardRegistry.headers = ["", "a\"b.h", "lib/x y.h"] := by decide +kernel
  obtain ⟨hreport, hdefinitions, -⟩ := texts_read_back h
  rw [htypes, hheaders] at hreport hdefinitions
  exact ⟨h, hreport, hdefinitions⟩

end Registry

end TemplateCensus
