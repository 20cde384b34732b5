import TemplateCensus.Proofs.Command.Flags

/-! Words in single quotes split back into themselves. Inside the quotes the splitter only collects
characters; a quote among them is taken outside, behind a backslash. Hence a command line may be
given as a list or as one text. -/

namespace TemplateCensus

namespace Command.Splitter
variable {done : List (List Char)} {word : List Char} {begun : Bool} {c : Char} {s t : Splitter}

def outside (done : List (List Char)) (word : List Char) (begun : Bool) : Splitter :=
  { done, word, begun }

def inside (done : List (List Char)) (word : List Char) (begun : Bool) : Splitter :=
  { done, word, begun, single := true }

theorem run_cons (h : s.step c = .next t) (cs : List Char) : s.run (c :: cs) = t.run cs := by
  rw [run, h]

theorem step_outside_quote :
    (outside done word begun).step '\x27' = .next (inside done word begun) := by
  cases begun <;> rfl

theorem step_inside_quote :
    (inside done word begun).step '\x27' = .next (outside done word true) := by
  cases begun <;> rfl

theorem step_outside_blank :
    (outside done word true).step ' ' = .next (outside (word.reverse :: done) [] false) := rfl

/-- Inside the quotes every other character is taken. A blank or a backslash does not begin the
word, but the closing quote will. -/
theorem step_inside (done : List (List Char)) (word : List Char) (begun : Bool)
    (hc : c ≠ '\x27') :
    ∃ begun', (inside done word begun).step c = .next (inside done (c :: word) begun') := by
  by_cases hback : c = '\\'
  · subst hback
    exact ⟨begun, rfl⟩
  by_cases hspace : isSpace c = true
  · exact ⟨begun, by simp [step, inside, isQuoting, hback, hspace]⟩
  · exact ⟨true, by simp [step, inside, isQuoting, take, hback, hspace, hc]⟩

theorem run_inside_quoted_quote (rest : List Char) :
    (inside done word begun).run (quoteChar '\x27' ++ rest) =
      (inside done ('\x27' :: word) true).run rest := by
  have hescape : (outside done word true).step '\\' =
      .next { outside done word true with escaped := true } := rfl
  have htake : Splitter.step { outside done word true with escaped := true } '\x27' =
      .next (outside done ('\x27' :: word) true) := rfl
  change (inside done word begun).run ('\x27' :: '\\' :: '\x27' :: '\x27' :: rest) = _
  rw [run_cons step_inside_quote, run_cons hescape, run_cons htake, run_cons step_outside_quote]

theorem run_inside (cs rest : List Char) :
    (inside done word begun).run (cs.flatMap quoteChar ++ '\x27' :: rest) =
      (outside done (cs.reverse ++ word) true).run rest := by
  induction cs generalizing word begun with
  | nil => exact run_cons step_inside_quote rest
  | cons c cs ih =>
    rw [List.flatMap_cons, List.append_assoc, List.reverse_cons, List.append_assoc,
      List.singleton_append]
    by_cases hc : c = '\x27'
    · rw [hc, run_inside_quoted_quote, ih]
    · obtain ⟨begun', hstep⟩ := step_inside done word begun hc
      rw [quoteChar, if_neg hc, List.singleton_append, run_cons hstep, ih]

theorem run_quoteWord (w : String) (rest : List Char) :
    (outside done [] false).run ((quoteWord w).toList ++ rest) =
      (outside done w.toList.reverse true).run rest := by
  rw [quoteWord, String.toList_ofList, List.append_assoc, List.cons_append,
    run_cons step_outside_quote, List.singleton_append, run_inside, List.append_nil]

theorem run_quoteLine (done : List (List Char)) (w : String) (ws : List String) :
    (outside done [] false).run (quoteLine (w :: ws)).toList =
      some (done.reverse ++ (w :: ws).map String.toList) := by
  induction ws generalizing w done with
  | nil =>
    have hline : (quoteLine [w]).toList = (quoteWord w).toList ++ [] := by simp [quoteLine]
    rw [hline, run_quoteWord]
    simp [run, finish, isQuoting, flush, outside]
  | cons v ws ih =>
    have hline : (quoteLine (w :: v :: ws)).toList =
        (quoteWord w).toList ++ ' ' :: (quoteLine (v :: ws)).toList := by simp [quoteLine]
    rw [hline, run_quoteWord, run_cons step_outside_blank, ih]
    simp

end Command.Splitter

theorem Command.words?_quoteLine (ws : List String) : words? (quoteLine ws) = some ws := by
  cases ws with
  | nil => rfl
  | cons w ws =>
    have hrun : Splitter.run {} (quoteLine (w :: ws)).toList = some ((w :: ws).map String.toList) :=
      Splitter.run_quoteLine [] w ws
    rw [words?, hrun, Option.map_some, List.map_map]
    simp

namespace CompileCommand

def inOneLine (c : CompileCommand) : CompileCommand :=
  { c with arguments := [], command := Command.quoteLine c.arguments }

/-- A command whose words are a list has the same flags as one whose words are a text, each word in
single quotes. -/
theorem flags_of_quoted_line {c : CompileCommand} (h : c.arguments ≠ []) :
    c.inOneLine.argv? = some c.arguments ∧
      ∃ fs, c.flags? = some fs ∧ c.inOneLine.flags? = some fs := by
  have hline : c.inOneLine.argv? = some c.arguments := Command.words?_quoteLine c.arguments
  have hlist : c.argv? = some c.arguments := if_neg (mt List.isEmpty_iff.mp h)
  refine ⟨hline, c.kept c.arguments.tail, ?_, ?_⟩
  · rw [flags?, hlist, Option.map_some]
  · rw [flags?, hline, Option.map_some]
    exact congrArg some (kept_congr (c := c) (d := c.inOneLine) (fun _ => rfl) _)

/-- Words that a shell would read as something else: nothing, quotes, blanks, a redirection, an
escape and an expansion. -/
def unquotable : CompileCommand where
  directory := "/src"
  file := "a.cc"
  arguments := ["c++", "", "it's", "-DS=\"a b\"", "2", ">", "\\", "\n", "\x60$(x);", "'", "a.cc"]

theorem flags_of_quoted_line_unquotable :
    unquotable.arguments ≠ [] ∧ unquotable.inOneLine.argv? = some unquotable.arguments ∧
      unquotable.inOneLine.flags? =
        some ["", "it's", "-DS=\"a b\"", "2", ">", "\\", "\n", "\x60$(x);", "'"] := by
  have hne : unquotable.arguments ≠ [] := List.cons_ne_nil _ _
  have hflags : unquotable.flags? =
      some ["", "it's", "-DS=\"a b\"", "2", ">", "\\", "\n", "\x60$(x);", "'"] := by
    decide +kernel
  obtain ⟨hargv, fs, hfs, hline⟩ := flags_of_quoted_line hne
  exact ⟨hne, hargv, hline.trans (hfs.symm.trans hflags)⟩

end CompileCommand

end TemplateCensus
