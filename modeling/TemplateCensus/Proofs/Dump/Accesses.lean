import TemplateCensus.Proofs.Dump.Addresses
import TemplateCensus.Proofs.Keyed
import TemplateCensus.Proofs.Spelling.Slices
import TemplateCensus.Census.Registry

/-! The way from the findings of a survey to a registry, with positions in lists and parts that may
be missing. A function that ends in `At?` does what the function without it does, but looks elements
up by their positions and takes parts out where they should be; it fails, with `none`, if there is
nothing. None of them ever does, and they give what the functions without failures give. -/

namespace TemplateCensus

open Text Spelling

def lastAt? {α : Type} (xs : List α) : Option α := xs[xs.length - 1]?

theorem lastAt?_eq {α : Type} {xs : List α} (h : xs ≠ []) (x : α) :
    lastAt? xs = some (xs.getLastD x) := by
  rw [lastAt?, ← List.getLast?_eq_getElem?, List.getLast?_eq_some_getLast h]
  cases xs with
  | nil => exact absurd rfl h
  | cons y ys => rfl

theorem scopeParts_ne_nil (s : String) : scopeParts s ≠ [] := by
  simpa [scopeParts] using scopePieces_ne_nil 0 s.toList

namespace Dump

/-! ## Arguments -/

mutual

/-- The texts of one argument; a node that is not there fails. -/
def argumentTextsAt? : Node → Option (List String)
  | .null => none
  | .mk a children =>
    if a.kind = argumentKind then
      match a.type with
      | some t => (normalCut? (if t.desugared = "" then t.spelling else t.desugared)).map ([·])
      | none =>
        if a.value ≠ "" then some [a.value]
        else if children.isEmpty then some [""]
        else argumentsAt? children
    else some []

def argumentsAt? : List Node → Option (List String)
  | [] => some []
  | n :: ns => do
    let xs ← argumentTextsAt? n
    let ys ← argumentsAt? ns
    some (xs ++ ys)

end

mutual

theorem argumentTextsAt?_eq : (n : Node) → argumentTextsAt? n = argumentTexts? n
  | .null => rfl
  | .mk a children => by
    rw [argumentTextsAt?, argumentTexts?, argumentsAt?_eq children]
    cases a.type with
    | none => rfl
    | some t => simp only [normalCut?_eq, Option.map_some]

theorem argumentsAt?_eq : (ns : List Node) → argumentsAt? ns = argumentsOf? ns
  | [] => rfl
  | n :: ns => by
    rw [argumentsAt?, argumentsOf?, argumentTextsAt?_eq n, argumentsAt?_eq ns]
    cases argumentTexts? n <;> cases argumentsOf? ns <;> rfl

end

/-! ## Class templates -/

def preferredAt? (decls : List ClassTemplate) : Option ClassTemplate :=
  match decls.find? fun d => d.record.any (·.isDefinition) with
  | some d => some d
  | none => decls[0]?

def agreeAt? (decls : List ClassTemplate) : Option Bool := do
  let first ← decls[0]?
  some ((decls.drop 1).all fun d => declaredName d = declaredName first)

def uniqueAt? (called : List ClassTemplate) : Option (Option ClassTemplate) :=
  if 0 < called.length then do
    let unique ← agreeAt? called
    if unique then (preferredAt? called).map some else some none
  else some none

def Tables.templateAt? (t : Tables) (q : String) : Option (Option ClassTemplate) :=
  if 0 < (t.templatesNamed q).length then (preferredAt? (t.templatesNamed q)).map some
  else do
    let parts ← partsCut? q
    let name ← lastAt? parts
    uniqueAt? (t.templatesCalled name)

theorem preferredAt?_eq (decls : List ClassTemplate) : preferredAt? decls = preferred decls := by
  rw [preferredAt?, preferred]
  cases decls.find? fun d => d.record.any (·.isDefinition) with
  | some d => rfl
  | none => cases decls <;> rfl

theorem preferredAt?_cons (d : ClassTemplate) (ds : List ClassTemplate) :
    (preferredAt? (d :: ds)).map some = some (preferred (d :: ds)) := by
  rw [preferredAt?_eq, preferred]
  cases (d :: ds).find? fun d => d.record.any (·.isDefinition) <;> rfl

theorem uniqueAt?_eq (called : List ClassTemplate) :
    uniqueAt? called = some (if agree called then preferred called else none) := by
  cases called with
  | nil => rfl
  | cons d ds =>
    have hagree : agreeAt? (d :: ds) = some (agree (d :: ds)) := rfl
    have hlength : 0 < (d :: ds).length := Nat.succ_pos _
    rw [uniqueAt?, if_pos hlength, hagree, Option.bind_eq_bind, Option.bind_some,
      preferredAt?_cons]
    cases agree (d :: ds) <;> rfl

theorem Tables.templateAt?_eq (t : Tables) (q : String) :
    t.templateAt? q = some (t.template? q) := by
  rw [templateAt?, template?]
  cases t.templatesNamed q with
  | cons d ds => exact preferredAt?_cons d ds
  | nil =>
    have hlength : ¬0 < ([] : List ClassTemplate).length := Nat.lt_irrefl 0
    have hlast := lastAt?_eq (scopeParts_ne_nil q) q
    rw [if_neg hlength, partsCut?_eq]
    simp only [Option.bind_eq_bind, Option.bind_some, hlast, uniqueAt?_eq]
    rfl

/-! ## Specializations -/

def matchFrom? (recorded : List String) (i : Nat) : List String → Option Bool
  | [] => some true
  | a :: args => do
    let r ← recorded[i]?
    if r = "" || r = a then matchFrom? recorded (i + 1) args else some false

def matchAt? (recorded args : List String) : Option Bool :=
  if recorded.length < args.length then some false else matchFrom? recorded 0 args

/-- The first candidate that matches in full, or else the first one that matches at all, `found` if
one was found before; `some none` if none matches. -/
def selectAt? (args : List String) (found : Option Specialization) :
    List Specialization → Option (Option Specialization)
  | [] => some found
  | s :: ss => do
    let fits ← matchAt? s.args args
    if fits then
      if s.args.length = args.length then some (some s) else selectAt? args (found.or (some s)) ss
    else selectAt? args found ss

theorem matchFrom?_eq {recorded rest args : List String} (front : List String)
    (h : recorded = front ++ rest) (hlength : args.length ≤ rest.length) :
    matchFrom? recorded front.length args = some (matchArguments rest args) := by
  induction args generalizing front rest with
  | nil => rw [matchFrom?, matchArguments]
  | cons a args ih =>
    cases rest with
    | nil => exact absurd hlength (Nat.not_succ_le_zero _)
    | cons r rest =>
      have hget : recorded[front.length]? = some r := by rw [h]; simp
      have hnext := ih (front ++ [r]) (by simpa using h) (Nat.le_of_succ_le_succ hlength)
      rw [List.length_append, List.length_singleton] at hnext
      rw [matchFrom?, hget, Option.bind_eq_bind, Option.bind_some, hnext, matchArguments]
      cases (r = "" || r = a : Bool) <;> rfl

theorem matchAt?_eq (recorded args : List String) :
    matchAt? recorded args = some (matchArguments recorded args) := by
  rw [matchAt?]
  split_ifs with hlength
  · have hno : matchArguments recorded args = false := by
      rw [Bool.eq_false_iff]
      exact fun h => Nat.not_le_of_lt hlength (length_le_of_matchArguments h)
    rw [hno]
  · exact matchFrom?_eq [] rfl (Nat.le_of_not_lt hlength)

theorem selectAt?_eq (args : List String) (found : Option Specialization)
    (cands : List Specialization) : selectAt? args found cands =
      some ((cands.find? fun s => matchArguments s.args args && s.args.length = args.length).or
        (found.or (cands.find? fun s => matchArguments s.args args))) := by
  induction cands generalizing found with
  | nil => simp [selectAt?]
  | cons s ss ih =>
    rw [selectAt?, matchAt?_eq, Option.bind_eq_bind, Option.bind_some, List.find?_cons,
      List.find?_cons]
    cases matchArguments s.args args with
    | false => exact ih found
    | true =>
      by_cases hfull : s.args.length = args.length
      · simp [hfull]
      · simp [hfull, ih]

theorem selectAt?_eq_select? (args : List String) (cands : List Specialization) :
    selectAt? args none cands = some (select? cands args) := by
  rw [selectAt?_eq, select?_eq, Option.none_or]

/-! ## Records -/

def scopeNameAt? (part : String) : Option String :=
  (templateCut? part).map fun x => (x.map (·.1)).getD part

namespace Tables

variable (t : Tables)

def resolveAt? (spelling : String) : Option (RecordDecl × Option Remark) := do
  let parts ← partsCut? spelling
  let last ← lastAt? parts
  match ← templateCut? last with
  | none => some ({ name := last }, none)
  | some (name, args) =>
    let scopes ← parts.dropLast.mapM scopeNameAt?
    let q := qualify (scopes ++ [name])
    let found ← t.templateAt? q
    if found.isNone || (found.bind (·.record)).isNone then
      some ({ name := name }, some (.noTemplate spelling))
    else
      let decl ← found
      let r ← decl.record
      let spec ← selectAt? args none (t.candidates q name)
      let rec' : RecordDecl := { name := name, tag := r.tag, args := args, parent := decl.parent }
      if spec.all fun s => s.isInstantiation decl t.partials then
        some ({ rec' with pattern := decl.pattern? }, none)
      else some (rec', some (.isSpecialization spelling decl.name))

theorem scopeNameAt?_eq : scopeNameAt? = fun part => some (templateName part) := by
  funext part
  rw [scopeNameAt?, templateCut?_eq]
  rfl

theorem resolveAt?_eq (spelling : String) : t.resolveAt? spelling = some (t.resolve spelling) := by
  have hlast := lastAt?_eq (scopeParts_ne_nil spelling) spelling
  have hscopes : (scopeParts spelling).dropLast.mapM (fun part => some (templateName part)) =
      some ((scopeParts spelling).dropLast.map templateName) := List.mapM_pure
  simp only [resolveAt?, partsCut?_eq, Option.bind_eq_bind, Option.bind_some, hlast,
    templateCut?_eq, scopeNameAt?_eq, hscopes, templateAt?_eq, selectAt?_eq_select?]
  rw [resolve]
  cases Spelling.template? ((scopeParts spelling).getLastD spelling) with
  | none => rfl
  | some x =>
    obtain ⟨name, args⟩ := x
    let q := qualify ((scopeParts spelling).dropLast.map templateName ++ [name])
    cases hfound : t.template? q with
    | none => simp only [q, hfound, Option.isNone_none, Bool.true_or, if_true]
    | some decl =>
      cases hrecord : decl.record with
      | none =>
        simp only [q, hfound, hrecord, Option.bind_some, Option.isNone_none, Bool.or_true, if_true]
      | some r =>
        have hinstance : t.isInstantiation decl q name args =
            (select? (t.candidates q name) args).all fun s => s.isInstantiation decl t.partials :=
          rfl
        simp only [q, hfound, hrecord, Option.bind_some, Option.isNone_some, Bool.or_self,
          Bool.false_eq_true, if_false]
        simp only [q] at hinstance
        rw [← hinstance]
        split_ifs <;> rfl

def recallAt? (memo : Memo) (spelling : String) :
    Option (Option RecordDecl × Memo × List Remark) :=
  if namesRecord spelling then
    match memo.find? spelling with
    | some r => some (some r, memo, [])
    | none => do
      let (r, remark) ← t.resolveAt? spelling
      some (some r, memo.insert spelling r, remark.toList)
  else some (none, memo, [])

theorem recallAt?_eq (memo : Memo) (spelling : String) :
    t.recallAt? memo spelling = some (t.recall memo spelling) := by
  rw [recallAt?, Tables.recall, resolveAt?_eq]
  split_ifs
  · cases memo.find? spelling <;> rfl
  · rfl

end Tables

end Dump

def Construction.canonicalAt? (c : Construction) : Option String :=
  match c.type with
  | none => some ""
  | some t => bareCut? (if t.desugared = "" then t.spelling else t.desugared)

theorem Construction.canonicalAt?_eq (c : Construction) : c.canonicalAt? = some c.canonical := by
  rw [canonicalAt?, canonical]
  cases c.type with
  | none => rfl
  | some t => exact bareCut?_eq _

namespace Dump

def Tables.attachAt? (t : Tables) (memo : Memo) :
    List Construction → Option (List Construction × List Remark)
  | [] => some ([], [])
  | c :: cs =>
    if c.type.isSome then do
      let spelling ← c.canonicalAt?
      let (r, memo, noted) ← t.recallAt? memo spelling
      let (cs, more) ← t.attachAt? memo cs
      some ({ c with record := r } :: cs, noted ++ more)
    else do
      let (cs, more) ← t.attachAt? memo cs
      some (c :: cs, more)

theorem Tables.attachAt?_eq (t : Tables) (memo : Memo) (cs : List Construction) :
    t.attachAt? memo cs = some (t.attach memo cs) := by
  induction cs generalizing memo with
  | nil => rfl
  | cons c cs ih =>
    rw [attachAt?, attach]
    simp only [Construction.canonicalAt?_eq, recallAt?_eq, ih, Option.bind_eq_bind,
      Option.bind_some]
    split_ifs <;> rfl

end Dump

/-! ## Instantiations -/

def Construction.resolveAt? (u : SourceUnit) (c : Construction) :
    Option (Except Rejection Instantiation) :=
  if c.record.isNone then some (.error .noRecord)
  else do
    let r ← c.record
    match r.kind with
    | .ordinary => some (.error .ordinary)
    | .instantiation =>
      let p ← r.pattern
      if p.described.isNone then some (.error (.undescribed r.name))
      else
        let t ← p.described
        let type ← c.canonicalAt?
        some (if u.inMain t.location then .error (.declaredInMain t.name)
          else if type = "" then .error .unnamed
          else .ok ⟨type, (t.location.map (·.file)).getD "", t.name, t.params, c.location⟩)

theorem Construction.resolveAt?_eq (u : SourceUnit) (c : Construction) :
    c.resolveAt? u = some (c.resolve u) := by
  rw [resolveAt?, resolve, canonicalAt?_eq]
  cases c.record with
  | none => rfl
  | some r =>
    cases hpattern : r.pattern with
    | none => simp [RecordDecl.kind, hpattern]
    | some p =>
      cases hdescribed : p.described <;> simp [RecordDecl.kind, hpattern, hdescribed]

def SourceUnit.acceptedAt? (u : SourceUnit) : Option Construction → Option (Option Instantiation)
  | none => some none
  | some c =>
    if u.inMain c.location then (c.resolveAt? u).map Except.toOption else some none

theorem SourceUnit.acceptedAt?_eq (u : SourceUnit) (c : Option Construction) :
    u.acceptedAt? c = some (u.judge c).accepted? := by
  cases c with
  | none => rfl
  | some c =>
    rw [acceptedAt?, judge, Construction.resolveAt?_eq]
    split_ifs
    · cases c.resolve u <;> rfl
    · rfl

/-! ## Public headers -/

def fileNameAt? (path : String) : Option String :=
  let cs := path.toList
  match cs.reverse.findIdx? fun c => c = '/' || c = '\\' with
  | none => some path
  | some i => (slice? cs (cs.length - i) cs.length).map String.ofList

theorem fileNameAt?_eq (path : String) :
    fileNameAt? path = some (HeaderTable.fileName path) := by
  let cs := path.toList
  let isSeparator : Char → Bool := fun c => c = '/' || c = '\\'
  have hnot : (fun c : Char => c ≠ '/' && c ≠ '\\') = fun c => !isSeparator c := by
    funext c
    simp [isSeparator]
  have htake : cs.reverse.takeWhile (fun c => !isSeparator c) =
      cs.reverse.take (cs.reverse.findIdx isSeparator) := by
    rw [List.takeWhile_eq_take_findIdx_not]
    simp
  rw [fileNameAt?, HeaderTable.fileName, hnot, htake]
  cases hfind : cs.reverse.findIdx? isSeparator with
  | none =>
    have hlength := List.findIdx_eq_length.mpr (List.findIdx?_eq_none_iff.mp hfind)
    rw [hlength, List.take_length, List.reverse_reverse, String.ofList_toList]
  | some i =>
    obtain ⟨hi, hindex⟩ := List.findIdx?_eq_some_iff_findIdx_eq.mp hfind
    have hslice : slice? cs (cs.length - i) cs.length = some (cs.drop (cs.length - i)) := by
      rw [slice?, if_pos ⟨Nat.sub_le _ _, Nat.le_refl _⟩, List.take_length]
    rw [hindex, List.take_reverse, List.reverse_reverse]
    simp only [hslice, Option.map_some, cs]

namespace Registry

def canonicalizeAt? (r : Registry) (t : HeaderTable) : Option Registry := do
  let es ← r.entries.mapM fun e => (fileNameAt? e.2.source).map fun name =>
    (e.1, { e.2 with source := (t.find? name).getD e.2.source })
  some (Keyed.ofList es)

theorem canonicalizeAt?_eq (r : Registry) (t : HeaderTable) :
    r.canonicalizeAt? t = some (r.canonicalize t) := by
  have hentries : (r.entries.mapM fun e => some (e.1, publish t e.2)) =
      some (r.entries.map fun e => (e.1, publish t e.2)) := List.mapM_pure
  have hlist : Keyed.ofList (r.entries.map fun e => (e.1, publish t e.2)) = r.canonicalize t := by
    rw [Keyed.ofList, List.foldl_map]
    exact Keyed.foldl_insert_map (publish t) r
  have hone : ∀ e : String × Instantiation, (fileNameAt? e.2.source).map (fun name =>
      (e.1, { e.2 with source := (t.find? name).getD e.2.source })) =
        some (e.1, publish t e.2) := by
    intro e
    rw [fileNameAt?_eq]
    rfl
  simp only [canonicalizeAt?, hone, hentries, Option.bind_eq_bind, Option.bind_some, hlist]

end Registry

def SourceUnit.registryAt? (u : SourceUnit) (headers : Option HeaderTable) : Option Registry := do
  let found ← u.constructions.mapM u.acceptedAt?
  let registry := (found.filterMap id).foldl Registry.add Keyed.empty
  match headers with
  | none => some registry
  | some t => registry.canonicalizeAt? t

theorem SourceUnit.registryAt?_eq (u : SourceUnit) (headers : Option HeaderTable) (t : Trace) :
    u.registryAt? headers =
      some (headers.elim (u.census t).registry fun table =>
        (u.census t).registry.canonicalize table) := by
  have haccepted : u.acceptedAt? = fun c => some (u.judge c).accepted? := by
    funext c
    exact u.acceptedAt?_eq c
  have hfound : u.constructions.mapM (fun c => some (u.judge c).accepted?) =
      some (u.constructions.map fun c => (u.judge c).accepted?) := List.mapM_pure
  have hlist : (u.constructions.map fun c => (u.judge c).accepted?).filterMap id =
      (u.census t).accepted := by
    rw [census, List.filterMap_map, List.filterMap_map]
    rfl
  rw [registryAt?, haccepted, hfound]
  simp only [Option.bind_eq_bind, Option.bind_some, hlist]
  cases headers with
  | none => rfl
  | some table => exact Registry.canonicalizeAt?_eq _ table

namespace Dump

/-! ## From the tree to the registry -/

/-- Surveys a tree and extracts the registry of its constructor calls, with public headers if there
is a table of them. -/
def analyseAt? (main : String) (headers : Option HeaderTable) (root : Node) :
    Option (Surveyed × Registry) := do
  let gap := root.visits.any fun v =>
    v.attrs.hasRole .specialization && (argumentsAt? v.children).isNone
  if gap then none
  else
    let tables := root.found.tables
    let (constructions, remarks) ← tables.attachAt? .empty root.found.constructions
    let s : Surveyed := ⟨main, constructions, tables, remarks⟩
    let registry ← s.unit.registryAt? headers
    some (s, registry)

end Dump

end TemplateCensus
