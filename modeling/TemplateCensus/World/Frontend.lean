import TemplateCensus.World.Basic
import TemplateCensus.Dump.Unit

/-!
Running the front end and reading its dump. A front end that fails is reported by what it printed,
also when the dump could be read.
-/

namespace TemplateCensus.Frontend

open Text

inductive StartFault where
  | notInstalled (name : String)
  | unfitDirectory
  | refused (fault : PathFault)
  deriving DecidableEq, Repr

def StartFault.message : StartFault → String
  | notInstalled name => "exec: " ++ quote name ++ ": executable file not found in $PATH"
  | unfitDirectory => "exec: environment variable contains NUL"
  | refused f => f.message

abbrev Call := List String

def directory (w : World) (i : Invocation) : Except PathFault String :=
  if i.directory = "" then .ok w.workingDirectory
  else
    match w.files.follow w.workingDirectory i.directory with
    | .directory d => .ok d
    | .file p _ => .ok p
    | .free _ => .error ⟨"chdir", i.directory, .noEntry⟩
    | .fault c => .error ⟨"chdir", i.directory, c⟩

/-- Refuses a program that is named by a path: none of the files can be run by itself. -/
def refusal (w : World) (dir program : String) : PathFault :=
  let cause : SystemFault :=
    if w.files.isDirectory "/" dir then
      match w.files.follow dir program with
      | .file _ _ | .directory _ => .denied
      | .free _ => .noEntry
      | .fault c => c
    else .notDirectory
  ⟨"fork/exec", program, cause⟩

def hasNul (s : String) : Bool := s.toList.contains '\x00'

/-- Starts the front end. The directory, which the program finds in its environment, is looked at
before the arguments. -/
def start (w : World) (i : Invocation) : Except StartFault Call :=
  if !w.hasProgram i.program && !i.program.toList.contains '/' then
    .error (.notInstalled i.program)
  else if hasNul i.directory then .error .unfitDirectory
  else
    match directory w i with
    | .error f => .error (.refused f)
    | .ok dir =>
      if (i.program :: i.arguments).any hasNul then
        .error (.refused ⟨"fork/exec", i.program, .invalid⟩)
      else if w.hasProgram i.program && w.files.isDirectory "/" dir then
        .ok (dir :: i.program :: i.arguments)
      else .error (.refused (refusal w dir i.program))

inductive Fault (ε : Type) where
  | noSource
  | notStarted (file : String) (why : StartFault)
  | failed (file : String) (text : String)
  | unread (file : String) (why : ε)
  deriving Repr

def Fault.message {ε : Type} (f : ε → String) : Fault ε → String
  | noSource => "failed to dump ast: no source file"
  | notStarted file why => "parse failed: " ++ file ++ ": " ++ why.message
  | failed file text => "parse failed: " ++ file ++ ": " ++ text
  | unread file why => "parse failed: " ++ file ++ ": " ++ f why

structure Run (ε α : Type) where
  call : Option Call
  reading : Option (Except ε α)
  fault : Option (Fault ε)

def complaint (r : Response) : String :=
  let text := trimmed r.errors
  if text = "" then "exit status " ++ decimal (r.exit % 256) else text

def run {ε α : Type} (w : World) (i : Invocation) (read : String → Except ε α) : Run ε α :=
  if i.file = "" then ⟨none, none, some .noSource⟩
  else
    match start w i with
    | .error why => ⟨none, none, some (.notStarted i.file why)⟩
    | .ok call =>
      let r := w.respond i
      let reading := read r.output
      let fault :=
        if r.exit % 256 ≠ 0 then some (.failed i.file (complaint r))
        else match reading with
          | .ok _ => none
          | .error e => some (.unread i.file e)
      ⟨some call, some reading, fault⟩

def Run.result {ε α : Type} (r : Run ε α) : Except (Fault ε) α :=
  match r.fault, r.reading with
  | some f, _ => .error f
  | none, some (.ok a) => .ok a
  | none, _ => .error .noSource

def survey (w : World) (i : Invocation) : Run Dump.Fault Dump.Surveyed :=
  run w i (Dump.ofText i.file)

end TemplateCensus.Frontend
