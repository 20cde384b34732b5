import TemplateCensus.Proofs.Analysis.Order
import TemplateCensus.Proofs.Command.Flags

/-! Finding the command for a file. The table of a database answers with the first command of the
list under a path. Since paths are clean and a clean path stays as it is, it does not matter how the
file is spelled, and the path that the front end is given is the one that the command calls its
source file. -/

namespace TemplateCensus

namespace Database
variable {c : CompileCommand} {cs : List CompileCommand} {db : Database} {wd : String}

theorem find?_enter (t : Keyed CompileCommand) (c : CompileCommand) (k : String) :
    (enter t c).find? k = (t.find? k).or (if c.path = k then some c else none) := by
  unfold enter Keyed.contains
  split
  · rename_i hsome
    split
    · rename_i hk
      rw [← hk, Option.or_of_isSome hsome]
    · rw [Option.or_none]
  · rename_i hnone
    rw [Keyed.find?_insert]
    split
    · rename_i hk
      rw [hk, Option.not_isSome_iff_eq_none.mp hnone, if_pos rfl, Option.none_or]
    · rename_i hk
      rw [if_neg (Ne.symm hk), Option.or_none]

theorem find?_foldl_enter (cs : List CompileCommand) (t : Keyed CompileCommand) (k : String) :
    (cs.foldl enter t).find? k = (t.find? k).or (cs.find? fun c => c.path = k) := by
  induction cs generalizing t with
  | nil => exact (Option.or_none).symm
  | cons c cs ih =>
    rw [List.foldl_cons, ih, find?_enter, Option.or_assoc, List.find?_cons]
    by_cases hk : c.path = k <;> simp [hk]

theorem find?_table (db : Database) (k : String) :
    db.table.find? k = db.commands.find? fun c => c.path = k := by
  rw [table, find?_foldl_enter, Keyed.find?_empty, Option.none_or]

theorem size_eq_card (db : Database) : db.size = (db.commands.map (·.path)).toFinset.card := by
  have hkeys : db.table.keys.toFinset = (db.commands.map (·.path)).toFinset := by
    ext k
    rw [List.mem_toFinset, List.mem_toFinset, Keyed.mem_keys, find?_table, List.find?_isSome]
    simp
  have hnodup : db.table.keys.Nodup := db.table.pairwise_keys.imp fun h => h.ne
  rw [← hkeys, List.toFinset_card_of_nodup hnodup, Keyed.keys, List.length_map]
  rfl

theorem ofEntries_map_some (cs : List CompileCommand) : ofEntries (cs.map some) = .ok ⟨cs⟩ := by
  have hmapM : (cs.map some).mapM id = some cs := by
    induction cs with
    | nil => rfl
    | cons c cs ih => simp [ih]
  rw [ofEntries, hmapM]

theorem find?_clean (hwd : Path.isAbsolute wd = true) (db : Database) (file : String) :
    db.find? wd (Path.clean file) = db.find? wd file := by
  rw [find?, find?, Path.within_clean (Path.ne_empty_of_isAbsolute hwd)]

theorem find?_within (hwd : Path.isAbsolute wd = true) (db : Database) (file : String) :
    db.find? wd (Path.within wd file) = db.find? wd file := by
  rw [find?, find?, Path.within_within hwd]

theorem path_of_find? {file : String} (h : db.find? wd file = some c) :
    c.path = Path.within wd file := by
  rw [find?, find?_table] at h
  simpa using List.find?_some h

theorem find?_eq_some_iff {file : String} : (Database.mk cs).find? wd file = some c ↔
    ∃ before after, cs = before ++ c :: after ∧ c.path = Path.within wd file ∧
      ∀ d ∈ before, d.path ≠ Path.within wd file := by
  rw [find?, find?_table, List.find?_eq_some_iff_append]
  simp only [decide_eq_true_eq, Bool.not_eq_true', decide_eq_false_iff_not]
  constructor
  · rintro ⟨hpath, before, after, hcs, hbefore⟩
    exact ⟨before, after, hcs, hpath, hbefore⟩
  · rintro ⟨before, after, hcs, hpath, hbefore⟩
    exact ⟨hpath, before, after, hcs, hbefore⟩

theorem find?_eq_none_iff {file : String} : (Database.mk cs).find? wd file = none ↔
    ∀ c ∈ cs, c.path ≠ Path.within wd file := by
  rw [find?, find?_table, List.find?_eq_none]
  simp only [decide_eq_true_eq]

end Database

namespace Plan
variable {c : CompileCommand} {db : Database} {file wd : String} {p : Plan}

theorem command_eq_error :
    command db wd file = .error (.noCommand file) ↔ db.find? wd file = none := by
  unfold command
  split <;> simp_all

theorem invocation_of_find? (hdb : p.database = some db)
    (hc : db.find? p.workingDirectory file = some c) :
    p.invocation file = (flags c).map fun fs =>
      ⟨p.settings.clang, Path.absolute p.workingDirectory file, c.directory,
        fs ++ (p.settings.compileFlags ++ p.extra), true⟩ := by
  unfold invocation
  rw [hdb]
  change (command db p.workingDirectory file >>= _) = _
  rw [command_eq_ok.mpr hc]
  cases hfs : flags c <;> simp [bind, Except.bind, Except.map, hfs]

/-- A database has as many entries as its commands have source files, and finds for a file the first
command whose source file it is, under every spelling of the file. The front end is then given the
path that the command itself has for its source file, which is no flag of the command under any
name. -/
theorem lookup_by_clean_path (cs : List CompileCommand) (hwd : Path.isAbsolute wd = true)
    (file : String) :
    ∃ db, Database.ofEntries (cs.map some) = .ok db ∧
      db.size = (cs.map (·.path)).toFinset.card ∧
      (∀ c, command db wd file = .ok c ↔ ∃ before after, cs = before ++ c :: after ∧
        c.path = Path.within wd file ∧ ∀ d ∈ before, d.path ≠ Path.within wd file) ∧
      (command db wd file = .error (.noCommand file) ↔
        ∀ c ∈ cs, c.path ≠ Path.within wd file) ∧
      db.find? wd (Path.clean file) = db.find? wd file ∧
      db.find? wd (Path.within wd file) = db.find? wd file ∧
      ∀ c, command db wd file = .ok c → Path.absolute wd file = c.path ∧
        (∀ fs, c.flags? = some fs → ∀ w ∈ fs, ¬ "-".toList <+: w.toList →
          Path.within c.directory w ≠ c.path) ∧
        ∀ p : Plan, p.database = some db → p.workingDirectory = wd →
          p.invocation file = (flags c).map fun fs =>
            ⟨p.settings.clang, c.path, c.directory,
              fs ++ (p.settings.compileFlags ++ p.extra), true⟩ := by
  refine ⟨⟨cs⟩, Database.ofEntries_map_some cs, Database.size_eq_card _, fun c => ?_, ?_,
    Database.find?_clean hwd _ file, Database.find?_within hwd _ file, fun c hc => ?_⟩
  · rw [command_eq_ok, Database.find?_eq_some_iff]
  · rw [command_eq_error, Database.find?_eq_none_iff]
  · rw [command_eq_ok] at hc
    have hpath : Path.absolute wd file = c.path := by
      rw [Path.absolute_eq_within (Path.ne_empty_of_isAbsolute hwd), Database.path_of_find? hc]
    refine ⟨hpath, fun fs hfs w hw hdash hsource => ?_, ?_⟩
    · obtain ⟨argv, -, rfl⟩ := Option.map_eq_some_iff.mp hfs
      exact CompileCommand.not_setsAside_of_mem_kept hw (.inr (.inr ⟨hdash, hsource⟩))
    · rintro p hdb rfl
      rw [invocation_of_find? hdb hc, hpath]

def repeated : List CompileCommand :=
  [{ directory := "/w", file := "b.cc", arguments := ["c++", "b.cc"] },
    { directory := "/w", file := "a.cc", arguments := ["c++", "-DFIRST", "-c", "./a.cc"] },
    { directory := "/w/build", file := "../a.cc", arguments := ["c++", "-DSECOND", "../a.cc"] }]

theorem lookup_by_clean_path_repeated :
    Path.isAbsolute "/w/./sub" = true ∧
      ∃ db c, Database.ofEntries (repeated.map some) = .ok db ∧ db.size = 2 ∧
        command db "/w/./sub" "x/../..//a.cc" = .ok c ∧ repeated[1]? = some c ∧
        db.find? "/w/./sub" "../a.cc" = db.find? "/w/./sub" "x/../..//a.cc" ∧
        Path.absolute "/w/./sub" "x/../..//a.cc" = c.path := by
  have hwd : Path.isAbsolute "/w/./sub" = true := rfl
  obtain ⟨db, hdb, hsize, hfirst, -, hclean, -, hfound⟩ :=
    lookup_by_clean_path repeated hwd "x/../..//a.cc"
  have hcard : (repeated.map (·.path)).toFinset.card = 2 := by decide +kernel
  have hname : Path.clean "x/../..//a.cc" = "../a.cc" := by decide +kernel
  have hother : ∀ d ∈ repeated.take 1, d.path ≠ Path.within "/w/./sub" "x/../..//a.cc" := by
    decide +kernel
  have hc := (hfirst _).mpr
    ⟨_, _, (List.take_append_drop 1 repeated).symm, by decide +kernel, hother⟩
  exact ⟨hwd, db, _, hdb, hsize.trans hcard, hc, rfl, hname ▸ hclean, (hfound _ hc).1⟩

end Plan

end TemplateCensus
