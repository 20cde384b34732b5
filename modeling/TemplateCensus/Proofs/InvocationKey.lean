import TemplateCensus.Invocation

/-! The key of an invocation tells all of it that counts. None of its texts has a NUL, so the key
gives them back when it is cut at each NUL, and the file is the last of them however many flags
there are. -/

namespace TemplateCensus

/-- Some text has moved from one of the texts to a later one, or one text has become two. -/
inductive Regrouped : List String → List String → Prop
  | moved (before : List String) (a text b : String) (between : List String) (c d : String)
      (after : List String) (h : text ≠ "") :
      Regrouped (before ++ (a ++ text ++ b) :: (between ++ (c ++ d) :: after))
        (before ++ (a ++ b) :: (between ++ (c ++ text ++ d) :: after))
  | split (before : List String) (a b : String) (after : List String) :
      Regrouped (before ++ (a ++ b) :: after) (before ++ a :: b :: after)

theorem append_append_ne {a b text : String} (h : text ≠ "") : a ++ text ++ b ≠ a ++ b := by
  intro heq
  have hlength := congrArg String.length heq
  simp only [String.length_append] at hlength
  exact h (String.length_eq_zero_iff.mp (by omega))

theorem Regrouped.ne {ts us : List String} (h : Regrouped ts us) : ts ≠ us := by
  cases h with
  | moved before a text b between c d after htext =>
    intro heq
    exact append_append_ne htext (List.cons.inj (List.append_cancel_left heq)).1
  | split before a b after =>
    intro heq
    simpa using congrArg List.length heq

namespace Invocation
variable {i j : Invocation}

def texts (i : Invocation) : List String := i.directory :: (i.flags ++ [i.file])

def IsNulFree (i : Invocation) : Prop :=
  '\x00' ∉ i.clang.toList ∧ ∀ t ∈ i.texts, '\x00' ∉ t.toList

theorem nul_notMem_program (h : i.IsNulFree) : '\x00' ∉ i.program.toList := by
  unfold program
  split
  · decide
  · exact h.1

theorem nul_notMem_arguments (h : i.IsNulFree) : ∀ t ∈ i.arguments, '\x00' ∉ t.toList := by
  have hfixed : ∀ isCpp : Bool, ∀ t ∈ ["-x", if isCpp then "c++" else "c", "-fsyntax-only",
      "-fno-color-diagnostics", "-Xclang", "-ast-dump=json"], '\x00' ∉ t.toList := by
    decide
  intro t ht
  rw [arguments, List.append_assoc] at ht
  rcases List.mem_append.mp ht with ht | ht
  · exact hfixed i.isCpp t ht
  · exact h.2 t (List.mem_cons_of_mem _ ht)

theorem splitOn_key (h : i.IsNulFree) : i.key.toList.splitOn '\x00' =
    (i.program :: i.directory :: i.arguments).map String.toList := by
  have hsep : "\x00".toList = ['\x00'] := rfl
  rw [key, String.toList_intercalate, hsep, List.splitOn_intercalate]
  · simp only [List.forall_mem_map, List.forall_mem_cons]
    exact ⟨nul_notMem_program h, h.2 _ List.mem_cons_self, nul_notMem_arguments h⟩
  · exact List.cons_ne_nil _ _

theorem arguments_inj : i.arguments = j.arguments ↔
    i.file = j.file ∧ i.flags = j.flags ∧ i.isCpp = j.isCpp := by
  have hlanguage : ∀ b c : Bool,
      (if b then "c++" else "c") = (if c then "c++" else "c") ↔ b = c := by decide
  simp only [arguments, List.cons_append, List.nil_append, List.cons.injEq, true_and, hlanguage,
    ← List.concat_eq_append, List.concat_inj]
  exact ⟨fun ⟨⟨hcpp, hflags⟩, hfile⟩ => ⟨hfile, hflags, hcpp⟩,
    fun ⟨hfile, hflags, hcpp⟩ => ⟨⟨hcpp, hflags⟩, hfile⟩⟩

theorem key_eq_iff (hi : i.IsNulFree) (hj : j.IsNulFree) : i.key = j.key ↔
    i.program = j.program ∧ i.directory = j.directory ∧ i.arguments = j.arguments := by
  constructor
  · intro hkey
    have hcut := splitOn_key hi
    rw [hkey, splitOn_key hj] at hcut
    have htexts := (List.map_inj_right fun _ _ => String.toList_inj.mp).mp hcut
    obtain ⟨hprogram, hrest⟩ := List.cons.inj htexts
    obtain ⟨hdirectory, harguments⟩ := List.cons.inj hrest
    exact ⟨hprogram.symm, hdirectory.symm, harguments.symm⟩
  · rintro ⟨hprogram, hdirectory, harguments⟩
    rw [key, key, hprogram, hdirectory, harguments]

/-- Two invocations without NUL have one key if and only if they run the same program on the same
file, in the same directory and language and with the same flags. So the key changes when text
moves between directory, flags and file, and when flags are split or merged. -/
theorem key_identifies (hi : i.IsNulFree) (hj : j.IsNulFree) :
    (i.key = j.key ↔ i.program = j.program ∧ i.directory = j.directory ∧ i.file = j.file ∧
      i.flags = j.flags ∧ i.isCpp = j.isCpp) ∧
    (Regrouped i.texts j.texts ∨ Regrouped j.texts i.texts → i.key ≠ j.key) := by
  have hiff : i.key = j.key ↔ i.program = j.program ∧ i.directory = j.directory ∧
      i.file = j.file ∧ i.flags = j.flags ∧ i.isCpp = j.isCpp := by
    rw [key_eq_iff hi hj, arguments_inj]
  refine ⟨hiff, fun hgroup hkey => ?_⟩
  obtain ⟨-, hdirectory, hfile, hflags, -⟩ := hiff.mp hkey
  have htexts : i.texts = j.texts := by rw [texts, texts, hdirectory, hfile, hflags]
  exact hgroup.elim (fun h => h.ne htexts) fun h => h.ne htexts.symm

theorem key_identifies_merged :
    let separate : Invocation := ⟨"", "a.cc", "/w", ["-I", "inc", ""], true⟩
    let merged : Invocation := ⟨"clang", "a.cc", "/w", ["-Iinc", ""], true⟩
    separate.IsNulFree ∧ merged.IsNulFree ∧
      separate.key = { separate with clang := "clang" }.key ∧
      Regrouped merged.texts separate.texts ∧ separate.key ≠ merged.key := by
  intro separate merged
  have hseparate : separate.IsNulFree := by unfold IsNulFree; decide
  have hmerged : merged.IsNulFree := by unfold IsNulFree; decide
  have hnamed : { separate with clang := "clang" }.IsNulFree := by unfold IsNulFree; decide
  have hsplit : Regrouped merged.texts separate.texts := .split ["/w"] "-I" "inc" ["", "a.cc"]
  exact ⟨hseparate, hmerged, (key_identifies hseparate hnamed).1.mpr ⟨rfl, rfl, rfl, rfl, rfl⟩,
    hsplit, (key_identifies hseparate hmerged).2 (.inr hsplit)⟩

end Invocation

end TemplateCensus
