import TemplateCensus.Command.Database
import TemplateCensus.World.Basic

/-!
Loading a compilation database from its file, or from the build directory that holds it.
-/

namespace TemplateCensus.Database

inductive LoadFault where
  | unreadable (fault : PathFault)
  | unusable (fault : Fault)
  deriving DecidableEq, Repr

def LoadFault.message : LoadFault → String
  | unreadable f => "failed to read compilation database: " ++ f.message
  | unusable f => f.message

def load (w : World) (path : String) : Except LoadFault Database :=
  let file := if w.files.isDirectory w.workingDirectory path then Path.join path fileName else path
  match w.read file with
  | .error f => .error (.unreadable f)
  | .ok text =>
    match parse text with
    | .error f => .error (.unusable f)
    | .ok db => .ok db

end TemplateCensus.Database
