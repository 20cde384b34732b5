import TemplateCensus.Analysis.Files
import TemplateCensus.World.FileSystem

/-!
The output of a run: the reports of the files that succeeded, the errors of the others, and the
generated files, which are made from the union of all registries. A file that fails does not keep
the others from being reported.
-/

namespace TemplateCensus

structure Output where
  merge : Bool := false
  definitions : String := ""
  declarations : String := ""
  isColoured : Bool := false

def errorLine (isColoured : Bool) (message : String) : String :=
  (if isColoured then "\x1b[31;1merror:\x1b[0m" else "error:") ++ " " ++ message ++ "\n"

inductive RunFault where
  | unwritable
  | reported (messages : List String)
  deriving DecidableEq, Repr

def RunFault.message : RunFault → String
  | unwritable => "write failed"
  | reported messages => "analysis failed: " ++ "\n".intercalate messages

def RunFault.isReported : RunFault → Bool
  | unwritable => false
  | reported _ => true

structure Emitted where
  stdout : String
  stderr : String
  files : FileSystem
  fault : Option RunFault

structure Outcome where
  file : String
  paragraphs : String
  result : Except String Registry

def FileResult.inWords {ε : Type} (message : ε → String) (r : FileResult ε) : Outcome :=
  ⟨r.file, r.paragraphs, match r.outcome with
    | .ok found => .ok found
    | .error e => .error (e.message message)⟩

structure Tally where
  side : String := ""
  failures : List String := []
  merged : Registry := .empty
  found : List (String × Registry) := []

/-- Takes in one result. Only a file that succeeded contributes its registry, which wins over those
of earlier files. -/
def Tally.take (isColoured : Bool) (t : Tally) (o : Outcome) : Tally :=
  match o.result with
  | .error m =>
    { t with
      side := t.side ++ o.paragraphs ++ errorLine isColoured m
      failures := t.failures ++ [m] }
  | .ok r =>
    { t with
      side := t.side ++ o.paragraphs
      merged := t.merged.merge r
      found := t.found ++ [(o.file, r)] }

def Tally.ofList (isColoured : Bool) (os : List Outcome) : Tally := os.foldl (take isColoured) {}

/-- The reports of the files one after the other. When there are `several` files, each report stands
under the name of its file, and all but the first, after which `isFirst` is false, behind a blank
line. -/
def reports (several : Bool) : (isFirst : Bool) → List (String × Registry) → String
  | _, [] => ""
  | isFirst, (file, r) :: rest =>
    (if several then (if isFirst then "" else "\n") ++ "// " ++ file ++ "\n" else "") ++ r.report ++
      reports several false rest

def writeGenerated (fs : FileSystem) (workingDirectory path text : String) :
    Except PathFault FileSystem :=
  fs.write workingDirectory path (Registry.generatedHeader ++ text)

def unwrittenMessage (path : String) (f : PathFault) : String :=
  "failed to write " ++ path ++ ": " ++ f.message

def generate (fs : FileSystem) (workingDirectory path text : String) :
    FileSystem × Option String :=
  if path = "" then (fs, none)
  else
    match writeGenerated fs workingDirectory path text with
    | .ok fs => (fs, none)
    | .error f => (fs, some (unwrittenMessage path f))

def emit (o : Output) (fs : FileSystem) (workingDirectory : String) (canPrint : Bool)
    (outcomes : List Outcome) : Emitted :=
  let t := Tally.ofList o.isColoured outcomes
  let stdout :=
    if o.merge then (if t.found.isEmpty then "" else t.merged.report)
    else reports (1 < outcomes.length) true t.found
  if !canPrint && !t.found.isEmpty then ⟨"", t.side, fs, some .unwritable⟩
  else
    let (fs, first) := generate fs workingDirectory o.definitions t.merged.definitions
    let (fs, second) := generate fs workingDirectory o.declarations t.merged.declarations
    let unwritten := first.toList ++ second.toList
    let messages := t.failures ++ unwritten
    { stdout := stdout
      stderr := t.side ++ String.join (unwritten.map (errorLine o.isColoured))
      files := fs
      fault := if messages.isEmpty then none else some (.reported messages) }

end TemplateCensus
