import TemplateCensus.Analysis.Emit
import TemplateCensus.Command.Load
import TemplateCensus.Settings.Load
import TemplateCensus.World.Frontend

/-!
Setting up a run from its options, and the run itself.
-/

namespace TemplateCensus

structure Options where
  buildPath : String := ""
  extraArgs : List String := []
  config : String := ""
  jobs : Int := 0
  verbose : Bool := false
  debug : Bool := false
  merge : Bool := false
  definitions : String := ""
  declarations : String := ""
  clang : String := ""
  deriving Repr

inductive SetupFault where
  | settings (fault : Settings.LoadFault)
  | database (fault : Database.LoadFault)
  deriving DecidableEq, Repr

def SetupFault.message : SetupFault → String
  | settings f => f.message
  | database f => f.message

structure Setup where
  plan : Plan
  headers : HeaderTable

structure Prepared where
  notes : List String
  log : List String
  result : Except SetupFault Setup

namespace Options

def database (o : Options) (w : World) : Except Database.LoadFault (Option Database) :=
  if o.buildPath = "" then .ok none else (Database.load w o.buildPath).map some

def logged (o : Options) (lines : List String) : List String := if o.debug then lines else []

def prepare (o : Options) (w : World) : Prepared :=
  match Settings.load w o.config with
  | .error f => ⟨[], [], .error (.settings f)⟩
  | .ok loaded =>
    let settings := if o.clang = "" then loaded.settings
      else { loaded.settings with clang := o.clang }
    let headers := HeaderTable.withOverrides settings.headers
    let jobs := firstPositive [o.jobs, settings.jobs, w.processors]
    let tableLine := "header table: " ++ Text.natDecimal headers.size ++ " entries, " ++
      Text.decimal jobs ++ " jobs"
    match o.database w with
    | .error f => ⟨loaded.notes, o.logged [tableLine], .error (.database f)⟩
    | .ok db =>
      let dbLines := db.toList.map fun db =>
        "compilation database " ++ o.buildPath ++ ": " ++ Text.natDecimal db.size ++ " commands"
      ⟨loaded.notes, o.logged (tableLine :: dbLines),
        .ok ⟨⟨settings, db, o.extraArgs, w.workingDirectory⟩, headers⟩⟩

def analyst {ε : Type} (o : Options) (s : Setup) (parse : Invocation → Attempt ε) : Analyst ε :=
  ⟨s.plan, s.headers, o.verbose, .all o.debug, parse⟩

def analysedLine (files : List String) (p : Progress) : String :=
  "analyzed " ++ Text.natDecimal files.length ++ " files, " ++ Text.natDecimal p.cache.size ++
    " translation units parsed"

def output (o : Options) (isColoured : Bool) : Output :=
  ⟨o.merge, o.definitions, o.declarations, isColoured⟩

end Options

structure Finished where
  log : List String
  parsed : List Invocation
  emitted : Emitted

def FileResult.hasGap {ε : Type} (isGap : ε → Bool) (r : FileResult ε) : Bool :=
  match r.outcome with
  | .error (.unparsed e) => isGap e
  | _ => false

def Options.conclude {ε : Type} (o : Options) (s : Setup) (fs : FileSystem)
    (isColoured canPrint : Bool) (message : ε → String) (isGap : ε → Bool) (files : List String)
    (results : List (FileResult ε)) (p : Progress) : Option Finished :=
  if results.any (·.hasGap isGap) then none
  else some
    { log := p.log ++ o.logged [analysedLine files p]
      parsed := p.parsed
      emitted := emit (o.output isColoured) fs s.plan.workingDirectory canPrint
        (results.map (·.inWords message)) }

def Options.run {ε : Type} (o : Options) (s : Setup) (fs : FileSystem) (isColoured canPrint : Bool)
    (parse : Invocation → Attempt ε) (message : ε → String) (isGap : ε → Bool)
    (files : List String) : Option Finished :=
  let (results, p) := (o.analyst s parse).analyse files
  o.conclude s fs isColoured canPrint message isGap files results p

end TemplateCensus
