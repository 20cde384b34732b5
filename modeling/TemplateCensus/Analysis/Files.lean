import TemplateCensus.Analysis.Plan
import TemplateCensus.Census.Report
import TemplateCensus.Dump.Unit
import TemplateCensus.UnitCache

/-!
The analysis of the source files of a run. Each file has its own registry; parsed units are shared
through a cache. Results keep the order of the files.
-/

namespace TemplateCensus

/-- What comes of parsing an invocation: the dump or why there is none, and what was noted while
reading it, which may be something also when the front end failed in the end. -/
structure Attempt (ε : Type) where
  result : Except ε Dump.Surveyed
  log : List String

def Attempt.of {ε : Type} (result : Except ε Dump.Surveyed) : Attempt ε :=
  ⟨result, match result with
    | .ok u => u.log
    | .error _ => []⟩

structure Analyst (ε : Type) where
  plan : Plan
  headers : HeaderTable
  isVerbose : Bool
  trace : Trace
  parse : Invocation → Attempt ε

inductive FileFault (ε : Type) where
  | unplanned (why : PlanFault)
  | unparsed (why : ε)
  deriving Repr

def FileFault.message {ε : Type} (f : ε → String) : FileFault ε → String
  | unplanned why => why.message
  | unparsed why => f why

structure FileCensus where
  registry : Registry
  paragraphs : String

structure FileResult (ε : Type) where
  file : String
  paragraphs : String
  outcome : Except (FileFault ε) Registry

structure Progress where
  cache : UnitCache Dump.Surveyed
  parsed : List Invocation := []
  log : List String := []

namespace Analyst

variable {ε : Type}

def examine (a : Analyst ε) (u : Dump.Surveyed) : FileCensus × List String :=
  let census := u.unit.census a.trace
  (⟨census.registry.canonicalize a.headers, if a.isVerbose then census.paragraphs else ""⟩,
    census.log)

def analyseFile (a : Analyst ε) (p : Progress) (file : String) : FileResult ε × Progress :=
  match a.plan.invocation file with
  | .error why => (⟨file, "", .error (.unplanned why)⟩, p)
  | .ok i =>
    let attempt := Thunk.mk fun _ => a.parse i
    let r := p.cache.fetch i.key fun _ => attempt.get.result
    let p : Progress :=
      { cache := r.cache
        parsed := p.parsed ++ if r.ran then [i] else []
        log := p.log ++ if r.ran && a.trace.decoding then attempt.get.log else [] }
    match r.result with
    | .error why => (⟨file, "", .error (.unparsed why)⟩, p)
    | .ok u =>
      let (found, lines) := a.examine u
      (⟨file, found.paragraphs, .ok found.registry⟩, { p with log := p.log ++ lines })

def analyseFrom (a : Analyst ε) (p : Progress) : List String → List (FileResult ε) × Progress
  | [] => ([], p)
  | f :: fs =>
    let (r, p) := a.analyseFile p f
    let (rs, p) := a.analyseFrom p fs
    (r :: rs, p)

def cacheSize : Nat := 64

def analyse (a : Analyst ε) (files : List String) : List (FileResult ε) × Progress :=
  a.analyseFrom { cache := ⟨cacheSize, []⟩ } files

end Analyst

end TemplateCensus
