import TemplateCensus.CommandLine.Help
import TemplateCensus.CommandLine.Script

/-!
The whole program, from its arguments and surroundings to what it prints and leaves behind.
-/

namespace TemplateCensus.CommandLine

structure Exit where
  status : Nat
  stdout : String
  stderr : String
  calls : List Frontend.Call
  files : FileSystem

inductive Colour where
  | auto
  | on
  | off
  deriving DecidableEq, Repr

def Colour.ofText? : String → Option Colour
  | "auto" => some auto
  | "on" => some on
  | "off" => some off
  | _ => none

def isColoured (w : World) (choice : Colour) : Bool :=
  -- standard error is never taken for a terminal, so `auto` is off
  choice = .on && ((w.env.find? "NO_COLOR").getD "") = ""

def failed (w : World) (isColoured : Bool) (stderr message : String) : Exit :=
  ⟨1, "", stderr ++ errorLine isColoured message, [], w.files⟩

def lines (log : List String) : String := String.join (log.map (· ++ "\n"))

/-- The dump of an invocation, or why there is none. A gap in the dump counts more than a failure of
the front end. -/
def parseUnit (w : World) (i : Invocation) : Attempt (Frontend.Fault Dump.Fault) :=
  let r := Frontend.survey w i
  match r.reading with
  | some (.ok u) => ⟨r.result, u.log⟩
  | some (.error .gap) => ⟨.error (.unread i.file .gap), []⟩
  | _ => ⟨r.result, []⟩

def isGap : Frontend.Fault Dump.Fault → Bool
  | .unread _ .gap => true
  | _ => false

def faultMessage : Frontend.Fault Dump.Fault → String
  | .unread file why => (Frontend.Fault.unread file why).message (Dump.Fault.message file)
  | f => f.message (Dump.Fault.message "")

def analyse (w : World) (o : Options) (isColoured : Bool) (sources : List String) : Option Exit :=
  let prepared := o.prepare w
  let printed := String.join prepared.notes ++ lines prepared.log
  match prepared.result with
  | .error (.settings .blankCommand) => none
  | .error (.database (.unusable .gap)) => none
  | .error f => some (failed w isColoured printed f.message)
  | .ok setup =>
    (o.run setup w.files isColoured true (parseUnit w) faultMessage isGap sources).map fun r =>
      { status := if r.emitted.fault.isSome then 1 else 0
        stdout := r.emitted.stdout
        stderr := printed ++ lines r.log ++ r.emitted.stderr
        calls := r.parsed.filterMap fun i => (Frontend.survey w i).call
        files := r.emitted.files }

def printed (w : World) (text : String) : Exit := ⟨0, text, "", [], w.files⟩

def answer (w : World) (r : Request) : Exit :=
  if r.args.isEmpty then failed w false "" Fault.nothingToComplete.message
  else
    let c := r.answer
    let path := (w.env.find? Request.debugVariable).getD ""
    let files :=
      if c.fault.isNone || path = "" then w.files
      else (w.files.append w.workingDirectory path c.complaint).toOption.getD w.files
    ⟨0, c.stdout (r.isDescribed w.env), c.stderr, [], files⟩

def printScript (w : World) (s : Shell) (p : Parsed) : Exit :=
  match p.words, Colour.ofText? p.color with
  | word :: _, _ => failed w false "" (Fault.unknownCommand word (Action.script s).path).message
  | [], none => failed w false "" (Fault.badColor p.color).message
  | [], some _ => printed w (s.script p.descriptions)

def takeCensus (w : World) (p : Parsed) : Option Exit :=
  match Colour.ofText? p.color with
  | none => some (failed w false "" (Fault.badColor p.color).message)
  | some choice =>
    if p.sources.isEmpty then some (failed w (isColoured w choice) "" Fault.noSource.message)
    else
      let o := { p.options with extraArgs := p.options.extraArgs ++ p.compileFlags }
      analyse w o (isColoured w choice) p.sources

def perform (w : World) (a : Action) (args : List String) : Option Exit :=
  match parse a.flags args with
  | .error f => some (failed w false "" f.message)
  | .ok p =>
    if p.help then some (printed w a.helpText)
    else
      match a with
      | .census => takeCensus w p
      | .overview => some (printed w a.helpText)
      | .script s => some (printScript w s p)

def run (w : World) (args : List String) : Option Exit :=
  match Request.ofArgs? args with
  | some r => some (answer w r)
  | none => perform w (Action.ofArgs args).1 (Action.ofArgs args).2

end TemplateCensus.CommandLine
