import TemplateCensus.Settings.Basic
import TemplateCensus.Command.Database
import TemplateCensus.Invocation

/-!
How a source file is to be parsed. Flags come from the compilation database, then from the settings,
then from the command line.
-/

namespace TemplateCensus

structure Plan where
  settings : Settings
  database : Option Database
  extra : List String
  workingDirectory : String

inductive PlanFault where
  | noCommand (file : String)
  | invalidCommand (line : String)
  deriving DecidableEq, Repr

def PlanFault.message : PlanFault → String
  | noCommand file => "no compile command for " ++ file
  | invalidCommand line => Command.invalidLine line

namespace Plan

def command (db : Database) (workingDirectory file : String) : Except PlanFault CompileCommand :=
  match db.find? workingDirectory file with
  | some c => .ok c
  | none => .error (.noCommand file)

def flags (c : CompileCommand) : Except PlanFault (List String) :=
  match c.flags? with
  | some fs => .ok fs
  | none => .error (.invalidCommand c.command)

def invocation (p : Plan) (file : String) : Except PlanFault Invocation :=
  let common := p.settings.compileFlags ++ p.extra
  match p.database with
  | none => .ok ⟨p.settings.clang, file, "", common, true⟩
  | some db => do
    let c ← command db p.workingDirectory file
    let fs ← flags c
    .ok ⟨p.settings.clang, Path.absolute p.workingDirectory file, c.directory, fs ++ common, true⟩

end Plan

def firstPositive (ns : List Int) : Int := (ns.find? (0 < ·)).getD 1

end TemplateCensus
