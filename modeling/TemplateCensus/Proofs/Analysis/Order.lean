import Mathlib.Data.List.FinRange
import TemplateCensus.Analysis.Setup
import TemplateCensus.Proofs.CleanPath
import TemplateCensus.Proofs.UnitCache

/-! Neither the cache nor the order in which files are analysed can be seen in the results. The key
of an invocation ends with the path of its file, and within one plan the path decides the rest of
the invocation, so a unit in the cache is the one that parsing would give again. -/

namespace TemplateCensus
open Analyst

section Keys
variable {f g : String} {i j : Invocation} {p : Plan}

theorem Invocation.exists_key_eq_append (i : Invocation) :
    ∃ front : String, i.key = front ++ "\x00" ++ i.file := by
  refine ⟨"\x00".intercalate (i.program :: i.directory :: i.arguments.dropLast), ?_⟩
  have harguments : i.arguments = i.arguments.dropLast ++ [i.file] := by
    rw [arguments, List.dropLast_concat]
  rw [key, harguments, List.dropLast_concat, ← List.cons_append, ← List.cons_append,
    String.intercalate_append_of_ne_nil (List.cons_ne_nil _ _) (List.cons_ne_nil _ _),
    String.intercalate_singleton]

theorem Invocation.takeWhile_reverse_key (h : '\x00' ∉ i.file.toList) :
    (i.key.toList.reverse.takeWhile (· ≠ '\x00')).reverse = i.file.toList := by
  obtain ⟨front, hkey⟩ := i.exists_key_eq_append
  have hpos : ∀ c ∈ i.file.toList.reverse, decide (c ≠ '\x00') = true := fun c hc =>
    decide_eq_true fun heq => h (heq ▸ List.mem_reverse.mp hc)
  rw [hkey, String.toList_append, List.reverse_append, List.takeWhile_append_of_pos hpos,
    String.toList_append, List.reverse_append]
  simp

theorem Invocation.file_eq_of_key (hkey : i.key = j.key) (hi : '\x00' ∉ i.file.toList)
    (hj : '\x00' ∉ j.file.toList) : i.file = j.file := by
  rw [← String.toList_inj, ← takeWhile_reverse_key hi, ← takeWhile_reverse_key hj, hkey]

def Plan.target (p : Plan) (file : String) : String :=
  match p.database with
  | none => file
  | some _ => Path.absolute p.workingDirectory file

theorem Plan.command_eq_ok {db : Database} {wd : String} {c : CompileCommand} :
    command db wd f = .ok c ↔ db.find? wd f = some c := by
  unfold command
  split <;> simp_all

theorem Plan.invocation_some {db : Database} (hdb : p.database = some db) :
    p.invocation f = .ok i ↔ ∃ c fs, db.find? p.workingDirectory f = some c ∧ flags c = .ok fs ∧
      ⟨p.settings.clang, Path.absolute p.workingDirectory f, c.directory,
        fs ++ (p.settings.compileFlags ++ p.extra), true⟩ = i := by
  unfold Plan.invocation
  rw [hdb]
  show (command db p.workingDirectory f >>= _) = _ ↔ _
  cases hc : command db p.workingDirectory f with
  | error e =>
    have hnone : ∀ c, db.find? p.workingDirectory f ≠ some c := fun c hc' => by
      rw [command_eq_ok.mpr hc'] at hc
      cases hc
    simp [hnone, bind, Except.bind]
  | ok c =>
    rw [command_eq_ok.mp hc]
    cases hfs : flags c <;> simp [bind, Except.bind, hfs]

theorem Plan.file_of_invocation (h : p.invocation f = .ok i) : i.file = p.target f := by
  unfold target
  cases hdb : p.database with
  | none =>
    unfold Plan.invocation at h
    rw [hdb] at h
    rw [← Except.ok.inj h]
  | some db =>
    obtain ⟨c, fs, -, -, rfl⟩ := (invocation_some hdb).mp h
    rfl

theorem Plan.invocation_of_target_eq (htarget : p.target f = p.target g)
    (h : p.invocation f = .ok i) : p.invocation g = .ok i := by
  unfold target at htarget
  cases hdb : p.database with
  | none =>
    rw [hdb] at htarget
    obtain rfl : f = g := htarget
    exact h
  | some db =>
    rw [hdb] at htarget
    replace htarget :
      Path.absolute p.workingDirectory f = Path.absolute p.workingDirectory g := htarget
    obtain ⟨c, fs, hc, hfs, rfl⟩ := (invocation_some hdb).mp h
    refine (invocation_some hdb).mpr ⟨c, fs, ?_, hfs, ?_⟩
    · rw [← hc, Database.find?, Database.find?, ← Path.clean_absolute, ← Path.clean_absolute,
        htarget]
    · rw [htarget]

theorem Plan.nul_notMem_target (hwd : '\x00' ∉ p.workingDirectory.toList)
    (hf : '\x00' ∉ f.toList) : '\x00' ∉ (p.target f).toList := by
  unfold target
  split
  · exact hf
  · intro hmem
    rcases Path.mem_absolute hmem with h | h
    · revert h
      decide
    · exact (List.mem_append.mp h).elim hwd hf

/-- Among these files, invocations with one key are the same. -/
def Plan.KeysDecide (p : Plan) (files : List String) : Prop :=
  ∀ f ∈ files, ∀ g ∈ files, ∀ i j, p.invocation f = .ok i → p.invocation g = .ok j →
    i.key = j.key → i = j

theorem Plan.keysDecide {files : List String} (hwd : '\x00' ∉ p.workingDirectory.toList)
    (hfiles : ∀ f ∈ files, '\x00' ∉ f.toList) : p.KeysDecide files := by
  intro f hf g hg i j hi hj hkey
  have hif := file_of_invocation hi
  have hjg := file_of_invocation hj
  have hfile : i.file = j.file := Invocation.file_eq_of_key hkey
    (hif ▸ nul_notMem_target hwd (hfiles f hf)) (hjg ▸ nul_notMem_target hwd (hfiles g hg))
  have htarget : p.target f = p.target g := hif.symm.trans (hfile.trans hjg)
  exact Except.ok.inj ((invocation_of_target_eq htarget hi).symm.trans hj)

end Keys

namespace Analyst
variable {ε : Type} {a : Analyst ε} {files fs : List String} {f : String} {i : Invocation}
  {c : UnitCache Dump.Surveyed} {p : Progress}

def alone (a : Analyst ε) (file : String) : FileResult ε :=
  match a.plan.invocation file with
  | .error why => ⟨file, "", .error (.unplanned why)⟩
  | .ok i =>
    match (a.parse i).result with
    | .error why => ⟨file, "", .error (.unparsed why)⟩
    | .ok u => ⟨file, (a.examine u).1.paragraphs, .ok (a.examine u).1.registry⟩

def Backs (a : Analyst ε) (files : List String) (c : UnitCache Dump.Surveyed) : Prop :=
  ∀ k u, (k, u) ∈ c.entries → ∃ f ∈ files, ∃ i, a.plan.invocation f = .ok i ∧ i.key = k ∧
    (a.parse i).result = .ok u

theorem result_fetch (hkeys : a.plan.KeysDecide files) (hc : a.Backs files c) (hf : f ∈ files)
    (hi : a.plan.invocation f = .ok i) :
    (c.fetch i.key fun _ => (a.parse i).result).result = (a.parse i).result := by
  unfold UnitCache.fetch
  cases hu : c.entries.lookup i.key with
  | some u =>
    obtain ⟨g, hg, j, hj, hkey, hparse⟩ := hc _ _ (Keyed.mem_of_lookup hu)
    rw [hkeys f hf g hg i j hi hj hkey.symm, hparse]
  | none => cases hparse : (a.parse i).result <;> rfl

theorem Backs.use (hc : a.Backs files c) (hf : f ∈ files) (hi : a.plan.invocation f = .ok i)
    {u : Dump.Surveyed} (hu : (a.parse i).result = .ok u) : a.Backs files (c.use i.key u) := by
  intro k v hmem
  rcases UnitCache.mem_entries_use hmem with heq | hmem
  · obtain ⟨hk, hv⟩ := Prod.mk.inj heq
    exact ⟨f, hf, i, hi, hk.symm, hv ▸ hu⟩
  · exact hc k v hmem

theorem Backs.fetch (hkeys : a.plan.KeysDecide files) (hc : a.Backs files c) (hf : f ∈ files)
    (hi : a.plan.invocation f = .ok i) :
    a.Backs files (c.fetch i.key fun _ => (a.parse i).result).cache := by
  have hresult := result_fetch hkeys hc hf hi
  unfold UnitCache.fetch at hresult ⊢
  cases hu : c.entries.lookup i.key with
  | some u =>
    rw [hu] at hresult
    exact hc.use hf hi hresult.symm
  | none =>
    cases hparse : (a.parse i).result with
    | ok u => exact hc.use hf hi hparse
    | error e => exact hc

theorem analyseFile_of_backs (hkeys : a.plan.KeysDecide files) (hp : a.Backs files p.cache)
    (hf : f ∈ files) :
    (a.analyseFile p f).1 = a.alone f ∧ a.Backs files (a.analyseFile p f).2.cache := by
  unfold analyseFile alone
  cases hi : a.plan.invocation f with
  | error why => exact ⟨rfl, hp⟩
  | ok i =>
    have hresult := result_fetch hkeys hp hf hi
    have hcache := hp.fetch hkeys hf hi
    dsimp only [Thunk.get]
    generalize (p.cache.fetch i.key fun _ => (a.parse i).result) = r at hresult hcache ⊢
    rw [hresult]
    cases (a.parse i).result with
    | error why => exact ⟨rfl, hcache⟩
    | ok u => exact ⟨rfl, hcache⟩

theorem analyseFrom_of_backs (hkeys : a.plan.KeysDecide files) (hp : a.Backs files p.cache)
    (hfs : fs ⊆ files) : (a.analyseFrom p fs).1 = fs.map a.alone := by
  induction fs generalizing p with
  | nil => rfl
  | cons f fs ih =>
    obtain ⟨hf, hfs⟩ := List.cons_subset.mp hfs
    obtain ⟨hfirst, hp⟩ := analyseFile_of_backs hkeys hp hf
    rw [analyseFrom, List.map_cons, ← hfirst, ← ih hp hfs]

def inOrder (a : Analyst ε) (capacity : Nat) (files : List String)
    (order : List (Fin files.length)) : List (FileResult ε) × Progress :=
  a.analyseFrom { cache := ⟨capacity, []⟩ } (order.map files.get)

theorem inOrder_fst (hkeys : a.plan.KeysDecide files) (capacity : Nat)
    (order : List (Fin files.length)) :
    (a.inOrder capacity files order).1 = order.map fun i => a.alone (files.get i) := by
  have hempty : a.Backs files ⟨capacity, []⟩ := fun _ _ hmem => nomatch hmem
  have hsub : order.map files.get ⊆ files := by
    intro f hf
    obtain ⟨i, -, rfl⟩ := List.mem_map.mp hf
    exact List.get_mem files i
  rw [inOrder, analyseFrom_of_backs hkeys hempty hsub, List.map_map]
  rfl

theorem analyse_eq_inOrder (a : Analyst ε) (files : List String) :
    a.analyse files = a.inOrder cacheSize files (List.finRange files.length) := by
  rw [inOrder, List.map_get_finRange, analyse]

end Analyst

/-- What stands in the slot of a file when each result is stored where its file stands. -/
def slot {α : Type} {n : Nat} (order : List (Fin n)) (results : List α) (i : Fin n) : Option α :=
  (order.zip results).lookup i

def Options.withJobs (o : Options) (jobs : Int) : Options := { o with jobs := jobs }

/-- A run that analyses the files in some order and puts out the results in the order of the
files. -/
def Options.runInOrder {ε : Type} (o : Options) (s : Setup) (fs : FileSystem)
    (isColoured canPrint : Bool) (parse : Invocation → Attempt ε) (message : ε → String)
    (isGap : ε → Bool) (capacity : Nat) (files : List String) (order : List (Fin files.length)) :
    Option Finished :=
  let (results, p) := (o.analyst s parse).inOrder capacity files order
  o.conclude s fs isColoured canPrint message isGap files
    ((List.finRange files.length).filterMap (slot order results)) p

section Order
variable {ε : Type} {files : List String} {order : List (Fin files.length)}

theorem slot_inOrder {a : Analyst ε} (hkeys : a.plan.KeysDecide files) (capacity : Nat)
    {i : Fin files.length} (hi : i ∈ order) :
    slot order (a.inOrder capacity files order).1 i = some (a.alone (files.get i)) := by
  rw [slot, inOrder_fst hkeys, ← List.map_prod_left_eq_zip]
  exact List.lookup_graph (fun i => a.alone (files.get i)) hi

theorem filterMap_slot_inOrder {a : Analyst ε} (hkeys : a.plan.KeysDecide files) (capacity : Nat)
    (horder : ∀ i, i ∈ order) :
    (List.finRange files.length).filterMap (slot order (a.inOrder capacity files order).1) =
      (a.analyse files).1 := by
  have hslot : slot order (a.inOrder capacity files order).1 =
      fun i => some (a.alone (files.get i)) :=
    funext fun i => slot_inOrder hkeys capacity (horder i)
  rw [hslot, analyse_eq_inOrder, inOrder_fst hkeys, ← List.filterMap_eq_map]
  rfl

theorem emitted_conclude (o : Options) (s : Setup) (fs : FileSystem) (isColoured canPrint : Bool)
    (message : ε → String) (isGap : ε → Bool) (results : List (FileResult ε)) (p q : Progress)
    (jobs : Int) :
    ((o.withJobs jobs).conclude s fs isColoured canPrint message isGap files results p).map
        (·.emitted) =
      (o.conclude s fs isColoured canPrint message isGap files results q).map (·.emitted) := by
  unfold Options.conclude
  split <;> rfl

theorem prepare_jobs (o : Options) (w : World) (jobs : Int) :
    ((o.withJobs jobs).prepare w).notes = (o.prepare w).notes ∧
      ((o.withJobs jobs).prepare w).result = (o.prepare w).result := by
  have hload : Settings.load w (o.withJobs jobs).config = Settings.load w o.config := rfl
  have hdb : (o.withJobs jobs).database w = o.database w := rfl
  unfold Options.prepare
  rw [hload, hdb]
  cases Settings.load w o.config with
  | error f => exact ⟨rfl, rfl⟩
  | ok loaded =>
    cases o.database w with
    | error f => exact ⟨rfl, rfl⟩
    | ok db => exact ⟨rfl, rfl⟩

/-- Whatever the size of the cache and the order of the analysis, the slot of each file holds what
its analysis alone gives, without a cache. Hence the number of jobs, which only lets the order vary,
changes nothing of what a run puts out. The working directory is a path of the system, and like the
names of the files it has no NUL. -/
theorem analysis_order_unobservable (o : Options) (s : Setup) (parse : Invocation → Attempt ε)
    (hwd : '\x00' ∉ s.plan.workingDirectory.toList) (hfiles : ∀ f ∈ files, '\x00' ∉ f.toList)
    (capacity : Nat) (horder : order.Perm (List.finRange files.length)) (jobs : Int) :
    (∀ i, slot order ((o.analyst s parse).inOrder capacity files order).1 i =
        some ((o.analyst s parse).alone (files.get i))) ∧
      (∀ w, ((o.withJobs jobs).prepare w).notes = (o.prepare w).notes ∧
        ((o.withJobs jobs).prepare w).result = (o.prepare w).result) ∧
      ∀ fs isColoured canPrint message isGap,
        ((o.withJobs jobs).runInOrder s fs isColoured canPrint parse message isGap capacity
            files order).map (·.emitted) =
          (o.run s fs isColoured canPrint parse message isGap files).map (·.emitted) := by
  have hkeys : (o.analyst s parse).plan.KeysDecide files := Plan.keysDecide hwd hfiles
  have hall : ∀ i, i ∈ order := fun i => horder.mem_iff.mpr (List.mem_finRange i)
  refine ⟨fun i => slot_inOrder hkeys capacity (hall i), fun w => prepare_jobs o w jobs, ?_⟩
  intro fs isColoured canPrint message isGap
  have hresults := filterMap_slot_inOrder hkeys capacity hall
  unfold Options.runInOrder Options.run
  dsimp only
  rw [← hresults]
  exact emitted_conclude o s fs isColoured canPrint message isGap _ _ _ jobs

def lonely : Setup where
  plan := ⟨{}, some ⟨[{ directory := "/w", file := "a.cc", arguments := ["c++", "a.cc"] }]⟩, [],
    "/w"⟩
  headers := .empty

def barren (i : Invocation) : Attempt String := .of (.ok ⟨i.file, [], ⟨[], [], []⟩, []⟩)

theorem analysis_order_unobservable_backwards :
    let files := ["a.cc", "./a.cc", "b.cc"]
    let a := ({} : Options).analyst lonely barren
    '\x00' ∉ lonely.plan.workingDirectory.toList ∧ (∀ f ∈ files, '\x00' ∉ f.toList) ∧
      [2, 1, 0].Perm (List.finRange files.length) ∧
      (a.inOrder 1 files [2, 1, 0]).2.parsed.length = 1 ∧
      ∀ i, slot [2, 1, 0] (a.inOrder 1 files [2, 1, 0]).1 i = some (a.alone (files.get i)) := by
  intro files a
  have hwd : '\x00' ∉ lonely.plan.workingDirectory.toList := by decide
  have hfiles : ∀ f ∈ files, '\x00' ∉ f.toList := by decide
  have horder : [2, 1, 0].Perm (List.finRange files.length) := by decide
  have hparsed : (a.inOrder 1 files [2, 1, 0]).2.parsed.length = 1 := by decide +kernel
  exact ⟨hwd, hfiles, horder, hparsed,
    (analysis_order_unobservable {} lonely barren hwd hfiles 1 horder 4).1⟩

end Order

end TemplateCensus
