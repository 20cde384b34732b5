import TemplateCensus.World.FileSystem
import TemplateCensus.Invocation

/-!
What a run sees of its surroundings.
-/

namespace TemplateCensus

structure Response where
  output : String
  errors : String := ""
  exit : Int := 0

structure World where
  files : FileSystem
  workingDirectory : String
  env : Keyed String
  input : String := ""
  hasProgram : String → Bool
  respond : Invocation → Response
  processors : Nat := 1

namespace World

def read (w : World) (path : String) : Except PathFault String :=
  w.files.read w.workingDirectory path

end World

end TemplateCensus
